import GatoPskTls.Server.Tolerance

/-!
# Server: unknown entries of known lists

Five lists of a ClientHello are made of entries with a code point. Entries whose code
point the crate does not know are put into them at any places; which lists survive this
is a property of the list, not of the entries.
-/
namespace GatoPskTls.Server

open GatoPskTls Stateful BigEndian ParseBuffer ClientHelloRef

inductive CodeList
  | supportedGroups
  | keyShare
  | pskKeyExchangeModes
  | signatureAlgorithms
  | signatureAlgorithmsCert
  deriving DecidableEq, Repr

/-- An entry as it stands on the wire; only the entries of key_share carry a share. -/
structure ListEntry where
  code : Nat
  share : Bytes
  deriving DecidableEq, Repr

namespace CodeList

def type : CodeList → ExtensionType
  | supportedGroups => .supportedGroups
  | keyShare => .keyShare
  | pskKeyExchangeModes => .pskKeyExchangeModes
  | signatureAlgorithms => .signatureAlgorithms
  | signatureAlgorithmsCert => .signatureAlgorithmsCert

/-- The width of a code point, and of the length in front of the list. -/
def width : CodeList → Nat
  | pskKeyExchangeModes => 1
  | _ => 2

def entryWire (l : CodeList) (e : ListEntry) : Bytes :=
  match l with
  | pskKeyExchangeModes => [UInt8.ofNat e.code]
  | keyShare => bigEndian 2 e.code ++ sized 2 e.share
  | _ => bigEndian 2 e.code

def knows (l : CodeList) (code : Nat) : Bool :=
  match l with
  | supportedGroups | keyShare => (NamedGroup.of code).isSome
  | pskKeyExchangeModes => (PskKeyExchangeMode.of (UInt8.ofNat code)).isSome
  | signatureAlgorithms | signatureAlgorithmsCert => (SignatureScheme.of code).isSome

def EntryFits (l : CodeList) (e : ListEntry) : Prop :=
  e.code < 256 ^ l.width ∧ e.share.length < 256 ^ 2

/-- The list fits its length, and each entry its fields. -/
structure Framed (l : CodeList) (entries : List ListEntry) : Prop where
  entries_fit : ∀ e ∈ entries, l.EntryFits e
  length_lt : (entries.flatMap l.entryWire).length < 256 ^ l.width

/-- The extension that carries the list; bytes behind the list are never looked at. -/
def extension (l : CodeList) (entries : List ListEntry) (leftover : Bytes) : RawExtension :=
  ⟨l.type.toU16, sized l.width (entries.flatMap l.entryWire) ++ leftover⟩

/-- Unknown entries put in at any places. -/
inductive Inserted (l : CodeList) : List ListEntry → List ListEntry → Prop
  | nil : Inserted l [] []
  | keep (e : ListEntry) {es es' : List ListEntry} : Inserted l es es' →
      Inserted l (e :: es) (e :: es')
  | add (e : ListEntry) {es es' : List ListEntry} : l.knows e.code = false → Inserted l es es' →
      Inserted l es (e :: es')

variable {l : CodeList} {entries es es' : List ListEntry} {leftover : Bytes}

theorem Inserted.eq_or_unknown (h : Inserted l es es') :
    es = es' ∨ ∃ e ∈ es', l.knows e.code = false := by
  induction h with
  | nil => exact .inl rfl
  | keep e h ih =>
      rcases ih with rfl | ⟨x, hx, hu⟩
      · exact .inl rfl
      · exact .inr ⟨x, List.mem_cons_of_mem _ hx, hu⟩
  | add e hu h ih => exact .inr ⟨e, List.mem_cons_self, hu⟩

theorem Inserted.filterMap_eq (h : Inserted .signatureAlgorithms es es') :
    (es'.filterMap fun e => SignatureScheme.of e.code) =
      es.filterMap fun e => SignatureScheme.of e.code := by
  induction h with
  | nil => rfl
  | keep e h ih => rw [List.filterMap_cons, List.filterMap_cons, ih]
  | add e hu h ih =>
      have hof : SignatureScheme.of e.code = none := by simpa [knows] using hu
      rw [List.filterMap_cons, ih, hof]

/-- signature_algorithms is its known schemes, as far as there is room for them. -/
theorem interpret_signatureAlgorithms (hf : Framed .signatureAlgorithms entries) :
    (extension .signatureAlgorithms entries leftover).interpret ClientHelloExtension.group =
      some (.signatureAlgorithms
        ⟨(entries.filterMap fun e => SignatureScheme.of e.code).take 25⟩) := by
  have htakes := (SignatureAlgorithms.takes_parse (N := 25) ListEntry.code
    (fun e he => (hf.entries_fit e he).1) hf.length_lt).map
      (g := ClientHelloExtension.signatureAlgorithms)
  refine RawExtension.interpret_of_read ?_
  have hout := htakes.outcome_eq (new_rest (sized 2 (entries.flatMap fun e => bigEndian 2 e.code) ++
    leftover))
  exact congrArg (Except.mapError fun _ => TlsError.decodeError) hout

theorem lookup_unknown {α κ : Type} {of : κ → Option α} {code : κ} (h : (of code).isSome = false) :
    lookup of code = .error .invalidData := by
  unfold lookup
  cases hof : of code with
  | none => rfl
  | some a => simp [hof] at h

/-- A list parser that answers each entry in turn fails on an entry it has no answer to. -/
theorem refused_of_unknown {α γ δ : Type} {p : Parser ParseError δ} {w : Bytes} {N : Nat}
    {of : ListEntry → Except ParseError α} {g : List α → γ} {g' : γ → δ} {e : ListEntry}
    {err : ParseError}
    (htakes : Takes p w (((entries.foldlM (gather N of) []).map g).map g'))
    (he : e ∈ entries) (hof : of e = .error err) (leftover : Bytes) :
    ∃ err, outcome (p (new (w ++ leftover))) = .error err := by
  obtain ⟨err', herr⟩ := @foldlM_gather_bad _ _ N of entries e err he hof []
  rw [herr] at htakes
  exact ⟨err', htakes.outcome_eq (new_rest _)⟩

/-- The other four lists are refused with one entry they do not know. -/
theorem interpret_unknown (hl : l ≠ .signatureAlgorithms) (hf : Framed l entries)
    {e : ListEntry} (he : e ∈ entries) (hu : l.knows e.code = false) :
    (extension l entries leftover).interpret ClientHelloExtension.group = none := by
  -- a parser that fails on the list is all there is to show
  suffices ∀ p, ClientHelloExtension.group l.type = some p →
      ∃ err, outcome (p (new (extension l entries leftover).data)) = .error err by
    obtain ⟨p, hp⟩ : ∃ p, ClientHelloExtension.group l.type = some p := by
      cases l <;> exact ⟨_, rfl⟩
    obtain ⟨err, herr⟩ := this p hp
    have ht : ExtensionType.of (extension l entries leftover).type = some l.type := by
      cases l <;> rfl
    simp only [RawExtension.interpret, ht, Option.bind_some, hp, herr]
    rfl
  intro p hp
  cases l with
  | signatureAlgorithms => exact absurd rfl hl
  | supportedGroups =>
      cases hp
      exact refused_of_unknown (SupportedGroups.takes_parse ListEntry.code
        (fun e he => (hf.entries_fit e he).1) hf.length_lt).map he (lookup_unknown hu) leftover
  | keyShare =>
      cases hp
      have hof : KeyShareEntry.read e.code e.share = .error .invalidData :=
        congrArg (Except.map fun group => (⟨group, e.share⟩ : KeyShareEntry)) (lookup_unknown hu)
      exact refused_of_unknown (KeyShareClientHello.takes_parse ListEntry.code ListEntry.share
        (fun e he => (hf.entries_fit e he).1) (fun e he => (hf.entries_fit e he).2)
        hf.length_lt).map he hof leftover
  | pskKeyExchangeModes =>
      cases hp
      exact refused_of_unknown (PskKeyExchangeModes.takes_parse
        (fun e => UInt8.ofNat (ListEntry.code e)) hf.length_lt).map he (lookup_unknown hu) leftover
  | signatureAlgorithmsCert =>
      cases hp
      exact refused_of_unknown (SignatureAlgorithmsCert.takes_parse ListEntry.code
        (fun e he => (hf.entries_fit e he).1) hf.length_lt).map he (lookup_unknown hu) leftover

end CodeList

/-- An extension left alone, or a list of it with unknown entries put in. -/
inductive Widened : RawExtension → RawExtension → Prop
  | same (e : RawExtension) : Widened e e
  | list {l : CodeList} {es es' : List ListEntry} (leftover : Bytes) : l.Framed es → l.Framed es' →
      l.Inserted es es' → Widened (l.extension es leftover) (l.extension es' leftover)

/-- Entries have been put into signature_algorithms at most. -/
def OnlySchemes (e e' : RawExtension) : Prop :=
  e.type = ExtensionType.signatureAlgorithms.toU16 ∨ e = e'

theorem CodeList.of_type (l : CodeList) (entries : List ListEntry) (leftover : Bytes) :
    ExtensionType.of (l.extension entries leftover).type = some l.type := by
  cases l <;> rfl

namespace Widened

variable {e e' : RawExtension}

/-- A widened extension that is accepted was widened in signature_algorithms at most. -/
theorem onlySchemes (h : Widened e e') (he' : e'.Accepted ClientHelloExtension.group) :
    OnlySchemes e e' := by
  cases h with
  | same => exact .inr rfl
  | @list l es es' leftover hf hf' hins =>
      by_cases hl : l = .signatureAlgorithms
      · subst hl
        exact .inl rfl
      rcases hins.eq_or_unknown with rfl | ⟨x, hx, hu⟩
      · exact .inr rfl
      · have hsome := he' _ (l.of_type es' leftover)
        rw [CodeList.interpret_unknown hl hf' hx hu] at hsome
        cases hsome

/-- Widened in signature_algorithms at most, an extension means what it meant before. -/
theorem interpret_eq (h : Widened e e') (honly : OnlySchemes e e') :
    e'.type = e.type ∧ e'.interpret ClientHelloExtension.group =
      e.interpret ClientHelloExtension.group := by
  rcases honly with htype | rfl
  · cases h with
    | same => exact ⟨rfl, rfl⟩
    | @list l es es' leftover hf hf' hins =>
        cases l with
        | signatureAlgorithms =>
            rw [CodeList.interpret_signatureAlgorithms hf, CodeList.interpret_signatureAlgorithms hf',
              hins.filterMap_eq]
            exact ⟨rfl, rfl⟩
        | _ => cases htype
  · exact ⟨rfl, rfl⟩

end Widened

theorem decideKex_congr {hello hello' : ClientHelloRef} (h : hello'.extensions = hello.extensions)
    (config : TlsServerConfig) (sent : Bool) :
    decideKex hello' config sent = decideKex hello config sent := by
  have hmodes : pskKeyExchangeModes hello' = pskKeyExchangeModes hello := by
    rw [pskKeyExchangeModes, findExtension, h]
    rfl
  have hshare : findClientX25519Share hello' = findClientX25519Share hello := by
    rw [findClientX25519Share, keyShare, findExtension, h]
    rfl
  have hgroup : clientSupportsGroup hello' .x25519 = clientSupportsGroup hello .x25519 := by
    rw [clientSupportsGroup, supportedGroups, findExtension, h]
    rfl
  rw [decideKex, decideKex, hmodes, hshare, hgroup]

section Lists

variable {raw raw' : List RawExtension}

theorem accepted_of_onlySchemes (hw : List.Forall₂ Widened raw raw')
    (hall : ∀ e ∈ raw, e.Accepted ClientHelloExtension.group)
    (honly : List.Forall₂ OnlySchemes raw raw') :
    (∀ e ∈ raw', e.Accepted ClientHelloExtension.group) ∧
      raw.filterMap (RawExtension.interpret ClientHelloExtension.group) =
        raw'.filterMap (RawExtension.interpret ClientHelloExtension.group) := by
  induction hw with
  | nil => exact ⟨hall, rfl⟩
  | @cons e e' raw raw' he hraw ih =>
      rw [List.forall₂_cons] at honly
      rw [List.forall_mem_cons] at hall
      obtain ⟨htype, hsame⟩ := he.interpret_eq honly.1
      obtain ⟨hrest, hlist⟩ := ih hall.2 honly.2
      refine ⟨List.forall_mem_cons.mpr ⟨?_, hrest⟩, ?_⟩
      · intro t ht
        rw [hsame]
        exact hall.1 t (htype ▸ ht)
      · rw [List.filterMap_cons, List.filterMap_cons, hsame, hlist]

theorem onlySchemes_of_accepted (hw : List.Forall₂ Widened raw raw')
    (hall' : ∀ e ∈ raw', e.Accepted ClientHelloExtension.group) :
    List.Forall₂ OnlySchemes raw raw' := by
  induction hw with
  | nil => exact .nil
  | cons he hraw ih =>
      rw [List.forall_mem_cons] at hall'
      exact .cons (he.onlySchemes hall'.1) (ih hall'.2)

end Lists

/-- Unknown entries put into the lists of an accepted ClientHello: it is accepted with the
same known entries, and the same key exchange is decided on, exactly when they were put
into signature_algorithms only. -/
theorem unknown_entries_ignored_iff {NEXT : Nat} {msg : Bytes} {hello : ClientHelloRef}
    {b : ParseBuffer} {raw : List RawExtension} (hparse : parse NEXT (new msg) = .ok hello b)
    (hwidened : List.Forall₂ Widened (wireExtensions msg) raw) (hfits : ∀ e ∈ raw, e.Fits)
    (hblock : (raw.flatMap RawExtension.wire).length < 256 ^ 2) :
    (∃ hello' b', parse NEXT (new (withExtensions msg raw)) = .ok hello' b' ∧
        hello'.extensions = hello.extensions ∧
        ∀ config sent, decideKex hello' config sent = decideKex hello config sent) ↔
      List.Forall₂ OnlySchemes (wireExtensions msg) raw := by
  obtain ⟨hall, hexts, hle, hplaced⟩ := accepted_of_parse hparse
  constructor
  · rintro ⟨hello', b', hparse', hsame, -⟩
    obtain ⟨hall', -⟩ := (parsesWith_withExtensions hparse hfits hblock).mp
      ⟨hello', b', hparse', hsame⟩
    exact onlySchemes_of_accepted hwidened hall'
  · intro honly
    obtain ⟨hall', hlist⟩ := accepted_of_onlySchemes hwidened hall honly
    obtain ⟨hello', b', hparse', hsame⟩ := (parsesWith_withExtensions hparse hfits hblock).mpr
      ⟨hall', hexts.trans hlist, hle, hplaced⟩
    exact ⟨hello', b', hparse', hsame, fun config sent => decideKex_congr hsame config sent⟩

/-- The extensions of `plainHello` with an unknown mode in front of psk_ke. -/
def greaseModes : List RawExtension :=
  [⟨43, [2, 3, 4]⟩, ⟨45, [2, 0x0b, 0]⟩, ⟨41, offeredPsk [0x61] (List.replicate 32 7)⟩]

theorem greaseModes_widened : List.Forall₂ Widened (wireExtensions plainHello) greaseModes := by
  have hsplit : wireExtensions plainHello = plainExtensions (List.replicate 32 7) := by
    decide +kernel
  have hmodes : Widened ⟨45, [1, 0]⟩ ⟨45, [2, 0x0b, 0]⟩ := by
    have hfits : ∀ e ∈ [(⟨0x0b, []⟩ : ListEntry), ⟨0, []⟩],
        CodeList.EntryFits .pskKeyExchangeModes e := by
      intro e he
      fin_cases he <;> exact ⟨by decide, by decide⟩
    exact @Widened.list .pskKeyExchangeModes [⟨0, []⟩] [⟨0x0b, []⟩, ⟨0, []⟩] []
      ⟨fun e he => hfits e (List.mem_cons_of_mem _ he), by decide⟩ ⟨hfits, by decide⟩
      (.add _ rfl (.keep _ .nil))
  rw [hsplit]
  exact .cons (.same _) (.cons hmodes (.cons (.same _) .nil))

/-- An accepted ClientHello is refused once it also offers a mode the crate does not know. -/
theorem greaseModes_refused :
    (∃ hello b, parse 16 (new plainHello) = .ok hello b) ∧
      List.Forall₂ Widened (wireExtensions plainHello) greaseModes ∧
      outcome (parse 16 (new (withExtensions plainHello greaseModes))) = .error .decodeError :=
  ⟨⟨_, _, parse_plainHello⟩, greaseModes_widened, by decide +kernel⟩

/-- signature_algorithms with these code points. -/
def schemeList (codes : List Nat) : RawExtension :=
  CodeList.extension .signatureAlgorithms (codes.map fun code => ⟨code, []⟩) []

def schemesHello : Bytes :=
  helloMessage (.zeros 32) [] (schemeList [0x0403] :: plainExtensions (List.replicate 32 7))

theorem greaseScheme_ignored :
    ∃ hello b hello' b', parse 16 (new schemesHello) = .ok hello b ∧
      parse 16 (new (withExtensions schemesHello
        (schemeList [0x0a0a, 0x0403] :: plainExtensions (List.replicate 32 7)))) = .ok hello' b' ∧
      hello'.extensions = hello.extensions := by
  have hparse : parse 16 (new schemesHello) = .ok
      { shiftedHelloRef with
        extensions := .signatureAlgorithms ⟨[.ecdsaSecp256r1Sha256]⟩ :: shiftedHelloRef.extensions
        bindersStartOffset := 81 }
      ⟨schemesHello.length, schemesHello, Nat.le_refl _⟩ := by decide +kernel
  have hsplit : wireExtensions schemesHello =
      schemeList [0x0403] :: plainExtensions (List.replicate 32 7) := by decide +kernel
  have hfits : ∀ e ∈ [(⟨0x0a0a, []⟩ : ListEntry), ⟨0x0403, []⟩],
      CodeList.EntryFits .signatureAlgorithms e := by
    intro e he
    fin_cases he <;> exact ⟨by decide, by decide⟩
  have hschemes : Widened (schemeList [0x0403]) (schemeList [0x0a0a, 0x0403]) :=
    .list [] ⟨fun e he => hfits e (List.mem_cons_of_mem _ he), by decide⟩ ⟨hfits, by decide⟩
      (.add _ rfl (.keep _ .nil))
  have hwidened : List.Forall₂ Widened (wireExtensions schemesHello)
      (schemeList [0x0a0a, 0x0403] :: plainExtensions (List.replicate 32 7)) := by
    rw [hsplit]
    exact .cons hschemes (.cons (.same _) (.cons (.same _) (.cons (.same _) .nil)))
  have honly : List.Forall₂ OnlySchemes (wireExtensions schemesHello)
      (schemeList [0x0a0a, 0x0403] :: plainExtensions (List.replicate 32 7)) := by
    rw [hsplit]
    exact .cons (.inl rfl) (.cons (.inr rfl) (.cons (.inr rfl) (.cons (.inr rfl) .nil)))
  have hraw : ∀ e ∈ schemeList [0x0a0a, 0x0403] :: plainExtensions (List.replicate 32 7), e.Fits := by
    intro e he
    fin_cases he <;> exact ⟨by decide, by decide⟩
  obtain ⟨hello', b', hparse', hsame, -⟩ := (unknown_entries_ignored_iff hparse hwidened hraw
    (by decide +kernel)).mpr honly
  exact ⟨_, _, hello', b', hparse, hparse', hsame⟩

end GatoPskTls.Server
