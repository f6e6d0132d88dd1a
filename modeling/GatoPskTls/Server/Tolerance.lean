import GatoPskTls.ClientHelloEncode
import GatoPskTls.ClientHelloFrame
import GatoPskTls.ExtensionSpec
import GatoPskTls.Server.Negotiate

/-!
# Server: what a ClientHello may carry besides

A ClientHello is changed at one place, by an extension, a version list or list entries the
crate does not know. The theorems say which of these changes the parser passes over.
-/
namespace GatoPskTls.Server

open GatoPskTls Stateful BigEndian ParseBuffer ClientHelloRef

/-- The parser accepts the message and returns these extensions. -/
def ParsesWith (NEXT : Nat) (msg : Bytes) (exts : List ClientHelloExtension) : Prop :=
  ∃ hello b, parse NEXT (new msg) = .ok hello b ∧ hello.extensions = exts

section Accepted

variable {NEXT : Nat} {msg : Bytes} {hello : ClientHelloRef} {b : ParseBuffer}

/-- What is known of an accepted message. -/
theorem accepted_of_parse (hparse : parse NEXT (new msg) = .ok hello b) :
    (∀ e ∈ wireExtensions msg, e.Accepted ClientHelloExtension.group) ∧
      hello.extensions =
        (wireExtensions msg).filterMap (RawExtension.interpret ClientHelloExtension.group) ∧
      hello.extensions.length ≤ NEXT ∧ PskPlaced hello.extensions := by
  obtain ⟨hfits, hblock, f, hmsg⟩ := exists_fields hparse
  have hsame : parse NEXT (new (f.message (wireExtensions msg) ++ b.rest)) = .ok hello b := by
    rw [← hmsg, hparse]
  exact (parse_message_accepts hfits hblock).mp ⟨hello, b, hsame, rfl⟩

/-- When an accepted message is accepted with other extensions. -/
theorem parsesWith_withExtensions {raw : List RawExtension} {exts : List ClientHelloExtension}
    (hparse : parse NEXT (new msg) = .ok hello b) (hfits : ∀ e ∈ raw, e.Fits)
    (hblock : (raw.flatMap RawExtension.wire).length < 256 ^ 2) :
    ParsesWith NEXT (withExtensions msg raw) exts ↔
      (∀ e ∈ raw, e.Accepted ClientHelloExtension.group) ∧
        exts = raw.filterMap (RawExtension.interpret ClientHelloExtension.group) ∧
        exts.length ≤ NEXT ∧ PskPlaced exts := by
  obtain ⟨-, f, hf⟩ := exists_withExtensions hparse
  rw [ParsesWith, hf]
  exact parse_message_accepts hfits hblock

end Accepted

theorem forall_mem_insert {α : Type} {P : α → Prop} {before after : List α} {x : α}
    (h : ∀ y ∈ before ++ after, P y) (hx : P x) : ∀ y ∈ before ++ x :: after, P y := by
  intro y hy
  rcases List.mem_append.mp hy with hy | hy
  · exact h y (List.mem_append_left _ hy)
  · rcases List.mem_cons.mp hy with rfl | hy
    · exact hx
    · exact h y (List.mem_append_right _ hy)

theorem forall_mem_replace {α : Type} {P : α → Prop} {before after : List α} {x x' : α}
    (h : ∀ y ∈ before ++ x :: after, P y) (hx : P x') : ∀ y ∈ before ++ x' :: after, P y := by
  refine forall_mem_insert (fun y hy => h y ?_) hx
  rcases List.mem_append.mp hy with hy | hy
  · exact List.mem_append_left _ hy
  · exact List.mem_append_right _ (List.mem_cons_of_mem _ hy)

/-- The type of the extension is no variant of `ClientHelloExtension`. -/
def Uninterpreted (e : RawExtension) : Prop :=
  ∀ t, ExtensionType.of e.type = some t → ClientHelloExtension.group t = none

theorem group_eq_none {t : ExtensionType} (h : ClientHelloExtension.group t = none) :
    t = .compressCertificate := by
  cases t with
  | compressCertificate => rfl
  | _ => cases h

theorem of_eq_compressCertificate {n : Nat} :
    ExtensionType.of n = some .compressCertificate ↔ n = 27 := by
  constructor
  · intro h
    unfold ExtensionType.of at h
    split at h <;> first | rfl | cases h
  · rintro rfl
    rfl

/-- An uninterpreted extension is accepted, without a trace, unless its type is 27. -/
theorem uninterpreted_accepted_iff {e : RawExtension} (he : Uninterpreted e) :
    e.interpret ClientHelloExtension.group = none ∧
      (e.Accepted ClientHelloExtension.group ↔ e.type ≠ 27) := by
  have hnone : e.interpret ClientHelloExtension.group = none := by
    cases ht : ExtensionType.of e.type with
    | none => simp [RawExtension.interpret, ht]
    | some t => simp [RawExtension.interpret, ht, he t ht]
  refine ⟨hnone, ?_, ?_⟩
  · intro h h27
    have := h .compressCertificate (of_eq_compressCertificate.mpr h27)
    simp [hnone] at this
  · intro hne t ht
    have ht' := group_eq_none (he t ht)
    rw [ht'] at ht
    exact absurd (of_eq_compressCertificate.mp ht) hne

/-- An extension of a type that is no variant, put in at any place: the parser returns the
same extensions exactly when the type is not compress_certificate. -/
theorem uninterpreted_transparent_iff {NEXT : Nat} {msg : Bytes} {hello : ClientHelloRef}
    {b : ParseBuffer} {before after : List RawExtension} {e : RawExtension}
    (hparse : parse NEXT (new msg) = .ok hello b) (hsplit : wireExtensions msg = before ++ after)
    (he : e.Fits) (htype : Uninterpreted e)
    (hblock : ((before ++ e :: after).flatMap RawExtension.wire).length < 256 ^ 2) :
    ParsesWith NEXT (withExtensions msg (before ++ e :: after)) hello.extensions ↔ e.type ≠ 27 := by
  obtain ⟨hnone, haccepted⟩ := uninterpreted_accepted_iff htype
  obtain ⟨hfits, -⟩ := exists_fields hparse
  obtain ⟨hall, hexts, hle, hplaced⟩ := accepted_of_parse hparse
  rw [hsplit] at hfits hall hexts
  have hlist : hello.extensions =
      (before ++ e :: after).filterMap (RawExtension.interpret ClientHelloExtension.group) := by
    rw [hexts, List.filterMap_append, List.filterMap_append, List.filterMap_cons_none hnone]
  rw [parsesWith_withExtensions hparse (forall_mem_insert hfits he) hblock, ← haccepted]
  constructor
  · rintro ⟨h, -⟩
    exact h e (by simp)
  · intro h
    exact ⟨forall_mem_insert hall h, hlist, hle, hplaced⟩

/-- compress_certificate with one algorithm, zlib. -/
def compressCertificate : RawExtension := ⟨27, [2, 0, 1]⟩

theorem compressCertificate_uninterpreted : Uninterpreted compressCertificate := by
  intro t ht
  rw [← Option.some.inj ht]
  rfl

/-- An accepted ClientHello is refused once it also offers certificate compression. -/
theorem compressCertificate_refused :
    (∃ hello b, parse 16 (new plainHello) = .ok hello b) ∧ Uninterpreted compressCertificate ∧
      outcome (parse 16 (new (withExtensions plainHello
        (compressCertificate :: wireExtensions plainHello)))) = .error (fatal .illegalParameter) :=
  ⟨⟨_, _, parse_plainHello⟩, compressCertificate_uninterpreted, by decide +kernel⟩

theorem unknownType_transparent : ParsesWith 16 (withExtensions plainHello
    (⟨0x0a0a, []⟩ :: wireExtensions plainHello)) shiftedHelloRef.extensions := by
  have htype : Uninterpreted ⟨0x0a0a, []⟩ := by
    intro t ht
    cases ht
  exact (@uninterpreted_transparent_iff 16 _ _ _ [] _ _ parse_plainHello rfl ⟨by decide, by decide⟩ htype
    (by decide +kernel)).mpr (by decide)

/-- An extension is interpreted as a variant of its own type. -/
theorem of_type_of_interpret {e : RawExtension} {ext : ClientHelloExtension}
    (h : e.interpret ClientHelloExtension.group = some ext) :
    ExtensionType.of e.type = some ext.extensionType := by
  simp only [RawExtension.interpret, Option.bind_eq_some_iff] at h
  obtain ⟨t, ht, p, hp, h⟩ := h
  rw [ht]
  cases hout : p (new e.data) with
  | error err d => simp [hout, Except.toOption] at h
  | ok a d =>
      have hext : a = ext := by simpa [hout, Except.toOption] using h
      subst hext
      cases t with
      | compressCertificate => cases hp
      | _ =>
          cases hp
          obtain ⟨x, d', -, hout⟩ := bind_eq_ok.mp hout
          cases hout
          rfl

theorem toU16_of {n : Nat} {t : ExtensionType} (h : ExtensionType.of n = some t) :
    t.toU16 = n := by
  unfold ExtensionType.of at h
  split at h <;> cases h <;> rfl

/-- supported_versions with these code points. -/
def versionList (versions : List Nat) : RawExtension :=
  ⟨ExtensionType.supportedVersions.toU16, sized 1 (versions.flatMap (bigEndian 2))⟩

/-- Parse, then validate the versions. -/
def acceptVersions (NEXT : Nat) (msg : Bytes) : Except TlsError Unit := do
  let hello ← outcome (parse NEXT (new msg))
  validateSupportedVersions hello

section VersionList

variable {NEXT : Nat} {msg : Bytes} {hello : ClientHelloRef} {b : ParseBuffer}
  {before after : List RawExtension} {old : Bytes} {versions : List Nat}

theorem versionList_fits (hlen : versions.length ≤ 127) : (versionList versions).Fits := by
  refine ⟨show 43 < 256 ^ 2 by decide, ?_⟩
  simp only [versionList, sized_length, List.length_flatMap, bigEndian_length, List.map_const',
    List.sum_replicate, smul_eq_mul]
  omega

theorem versionList_read (hcodes : ∀ v ∈ versions, v < 256 ^ 2) (hlen : versions.length ≤ 127) :
    (versionList versions).read ClientHelloExtension.group =
      (((versions.foldlM (gather 1 fun v => .ok ⟨v⟩) []).map SupportedVersionsClientHello.mk).map
        ClientHelloExtension.supportedVersions).mapError fun _ => .decodeError := by
  have hbytes : (versions.flatMap (bigEndian 2)).length < 256 ^ 1 := by
    simp only [List.length_flatMap, bigEndian_length, List.map_const', List.sum_replicate,
      smul_eq_mul]
    omega
  have htakes := (SupportedVersionsClientHello.takes_parse (N := 1) (fun v => v) hcodes hbytes).map
    (g := ClientHelloExtension.supportedVersions)
  rw [← htakes.outcome_new]
  rfl

theorem versionList_read_single {v : Nat} (hv : v < 256 ^ 2) :
    (versionList [v]).read ClientHelloExtension.group = .ok (.supportedVersions ⟨[⟨v⟩]⟩) := by
  rw [versionList_read (by simpa using hv) (by simp), foldlM_gather_ok (fun _ _ => rfl) (by simp)]
  rfl

theorem versionList_read_long (hcodes : ∀ v ∈ versions, v < 256 ^ 2) (hlen : versions.length ≤ 127)
    (hlong : 1 < versions.length) :
    (versionList versions).read ClientHelloExtension.group = .error .decodeError := by
  obtain ⟨e, he⟩ := @foldlM_gather_full _ _ 1 (fun v => .ok (⟨v⟩ : ProtocolVersion)) versions []
    (by simpa using hlong) (Nat.zero_le _)
  rw [versionList_read hcodes hlen, he]
  rfl

/-- With one version on the list, everything else is parsed as before. -/
theorem parsesWith_single {v : Nat} (hparse : parse NEXT (new msg) = .ok hello b)
    (hsplit : wireExtensions msg = before ++ ⟨ExtensionType.supportedVersions.toU16, old⟩ :: after)
    (hv : v < 256 ^ 2)
    (hblock : ((before ++ versionList [v] :: after).flatMap RawExtension.wire).length < 256 ^ 2) :
    ParsesWith NEXT (withExtensions msg (before ++ versionList [v] :: after))
      (before.filterMap (RawExtension.interpret ClientHelloExtension.group) ++
        .supportedVersions ⟨[⟨v⟩]⟩ ::
          after.filterMap (RawExtension.interpret ClientHelloExtension.group)) := by
  obtain ⟨hfits, -⟩ := exists_fields hparse
  obtain ⟨hall, hexts, hle, hplaced⟩ := accepted_of_parse hparse
  rw [hsplit] at hfits hall hexts
  obtain ⟨ext, hext⟩ := Option.isSome_iff_exists.mp
    (hall _ (List.mem_append_right _ List.mem_cons_self) .supportedVersions rfl)
  have hnew := RawExtension.interpret_of_read (versionList_read_single hv)
  rw [List.filterMap_append, List.filterMap_cons_some hext] at hexts
  -- neither the old list nor the new one is a pre_shared_key
  have hpsk : pskOf ext = none := by
    have htype := of_type_of_interpret hext
    cases ext with
    | preSharedKey p => cases htype
    | _ => rfl
  refine (parsesWith_withExtensions hparse ?_ hblock).mpr ⟨?_, ?_, ?_, ?_⟩
  · exact forall_mem_replace hfits (versionList_fits (by simp))
  · exact forall_mem_replace hall (fun t _ => by rw [hnew]; rfl)
  · rw [List.filterMap_append, List.filterMap_cons_some hnew]
  · rw [hexts, List.length_append, List.length_cons] at hle
    rwa [List.length_append, List.length_cons]
  · rw [hexts] at hplaced
    refine hplaced.congr ?_
    rw [List.map_append, List.map_append, List.map_cons, List.map_cons, hpsk]
    rfl

/-- The first version list decides, so a list that is alone decides. -/
theorem supportedVersions_of_first {hello' : ClientHelloRef} {data : SupportedVersionsClientHello}
    {rest : List ClientHelloExtension}
    (hfirst : ∀ e ∈ before, e.type ≠ ExtensionType.supportedVersions.toU16)
    (hexts : hello'.extensions =
      before.filterMap (RawExtension.interpret ClientHelloExtension.group) ++
        .supportedVersions data :: rest) :
    supportedVersions hello' = some data := by
  rw [supportedVersions, findExtension, hexts, List.findSome?_append, Option.or_eq_some_iff]
  refine .inr ⟨List.findSome?_eq_none_iff.mpr ?_, rfl⟩
  intro ext hext
  obtain ⟨e, he, hi⟩ := List.mem_filterMap.mp hext
  have htype := of_type_of_interpret hi
  cases ext with
  | supportedVersions v => exact absurd (toU16_of htype).symm (hfirst e he)
  | _ => rfl

theorem acceptVersions_single {v : Nat} (hparse : parse NEXT (new msg) = .ok hello b)
    (hsplit : wireExtensions msg = before ++ ⟨ExtensionType.supportedVersions.toU16, old⟩ :: after)
    (hfirst : ∀ e ∈ before, e.type ≠ ExtensionType.supportedVersions.toU16) (hv : v < 256 ^ 2)
    (hblock : ((before ++ versionList [v] :: after).flatMap RawExtension.wire).length < 256 ^ 2) :
    acceptVersions NEXT (withExtensions msg (before ++ versionList [v] :: after)) =
      if v = 0x0304 then .ok () else .error (fatal .protocolVersion) := by
  obtain ⟨hello', b', hparse', hexts⟩ := parsesWith_single hparse hsplit hv hblock
  rw [acceptVersions, hparse', outcome_ok, ok_bind, validateSupportedVersions,
    supportedVersions_of_first hfirst hexts]
  simp [TLS13]

/-- The error of the first extension that is refused is the error of the parser. -/
theorem parse_refused {e e' : RawExtension} {err : TlsError}
    (hparse : parse NEXT (new msg) = .ok hello b)
    (hsplit : wireExtensions msg = before ++ e :: after) (he' : e'.Fits)
    (hblock : ((before ++ e' :: after).flatMap RawExtension.wire).length < 256 ^ 2)
    (hread : e'.read ClientHelloExtension.group = .error err)
    (hne : err ≠ .unknownExtensionType) :
    outcome (parse NEXT (new (withExtensions msg (before ++ e' :: after)))) = .error err := by
  obtain ⟨hfits, -⟩ := exists_fields hparse
  obtain ⟨hall, hexts, hle, -⟩ := accepted_of_parse hparse
  obtain ⟨-, f, hf⟩ := exists_withExtensions hparse
  rw [hsplit] at hfits hall hexts
  have hfits' : ∀ x ∈ before ++ e' :: after, x.Fits := forall_mem_replace hfits he'
  have hbefore : before.foldlM (RawExtension.enroll ClientHelloExtension.group NEXT) [] =
      .ok (before.filterMap (RawExtension.interpret ClientHelloExtension.group)) := by
    refine (RawExtension.foldlM_enroll_eq_ok (Nat.zero_le _)).mpr
      ⟨fun x hx => hall x (List.mem_append_left _ hx), rfl, ?_⟩
    rw [hexts, List.filterMap_append, List.length_append] at hle
    omega
  rw [hf, parse_message NEXT f hfits' hblock, List.foldlM_append, hbefore, ok_bind,
    List.foldlM_cons, RawExtension.enroll_of_error hread hne, error_bind, error_bind]

/-- The version list is judged by whether it holds TLS 1.3 exactly when it has one entry;
the parser has room for no more. -/
theorem version_list_respected_iff (hparse : parse NEXT (new msg) = .ok hello b)
    (hsplit : wireExtensions msg = before ++ ⟨ExtensionType.supportedVersions.toU16, old⟩ :: after)
    (hfirst : ∀ e ∈ before, e.type ≠ ExtensionType.supportedVersions.toU16)
    (hne : versions ≠ []) (hcodes : ∀ v ∈ versions, v < 256 ^ 2) (hlen : versions.length ≤ 127)
    (hblock : ((before ++ versionList versions :: after).flatMap RawExtension.wire).length <
      256 ^ 2) :
    ((acceptVersions NEXT (withExtensions msg (before ++ versionList versions :: after)) = .ok () ↔
        0x0304 ∈ versions) ∧
      (0x0304 ∉ versions →
        acceptVersions NEXT (withExtensions msg (before ++ versionList versions :: after)) =
          .error (fatal .protocolVersion))) ↔
      versions.length = 1 := by
  constructor
  · rintro ⟨haccept, hreject⟩
    by_contra hone
    have hpos := List.length_pos_iff.mpr hne
    have hlong : 1 < versions.length := by omega
    have herror : acceptVersions NEXT
        (withExtensions msg (before ++ versionList versions :: after)) = .error .decodeError := by
      rw [acceptVersions, parse_refused hparse hsplit (versionList_fits hlen) hblock
        (versionList_read_long hcodes hlen hlong) (by simp), error_bind]
    rw [herror] at haccept hreject
    by_cases hmem : 0x0304 ∈ versions
    · cases haccept.mpr hmem
    · cases hreject hmem
  · intro hone
    obtain ⟨v, rfl⟩ := List.length_eq_one_iff.mp hone
    have hv := hcodes v List.mem_cons_self
    rw [acceptVersions_single hparse hsplit hfirst hv hblock, List.mem_singleton]
    by_cases h : v = 0x0304
    · simp [h]
    · simp [h, Ne.symm h]

end VersionList

/-- An accepted ClientHello is refused as malformed once it also offers TLS 1.2. -/
theorem twoVersions_refused :
    acceptVersions 16 plainHello = .ok () ∧
      (wireExtensions plainHello).head? = some (versionList [0x0304]) ∧
      acceptVersions 16 (withExtensions plainHello
        (versionList [0x0304, 0x0303] :: (wireExtensions plainHello).tail)) =
          .error .decodeError := by
  decide +kernel

theorem singleVersion_respected :
    acceptVersions 16 (withExtensions plainHello
      (versionList [0x0303] :: (wireExtensions plainHello).tail)) =
        .error (fatal .protocolVersion) := by
  have hsplit : wireExtensions plainHello =
      [] ++ ⟨43, [2, 3, 4]⟩ :: (wireExtensions plainHello).tail := by decide +kernel
  exact ((version_list_respected_iff parse_plainHello hsplit (by simp) (List.cons_ne_nil 0x0303 [])
    (by decide) (by decide) (by decide +kernel)).mpr rfl).2 (by decide)

end GatoPskTls.Server
