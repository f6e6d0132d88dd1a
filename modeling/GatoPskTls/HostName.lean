import GatoPskTls.Pki

/-!
# Host names and the names of a certificate

The matcher of `rustpki` scans two names, counts their labels and compares what stands behind
the first dot. Here is which names it takes, said without the scans, and how that differs from
the rule for wildcards: the label a star stands for may be empty.
-/
namespace GatoPskTls.Pki

open Stateful

/-- Only letters, digits, `-` and `.`. -/
def IsHostName (name : Bytes) : Prop := ∀ b ∈ name, isHostByte b = true

instance (name : Bytes) : Decidable (IsHostName name) :=
  inferInstanceAs (Decidable (∀ b ∈ name, isHostByte b = true))

/-- A star for the first label of a name that has at least two more. -/
structure Wildcard (cn suffix : Bytes) : Prop where
  star : cn = STAR :: DOT :: suffix
  hostName : IsHostName suffix
  dotted : DOT ∈ suffix

/-- A host whose first label is `label`. -/
structure FirstLabel (host label rest : Bytes) : Prop where
  split : host = label ++ DOT :: rest
  single : DOT ∉ label

/-- The same name ignoring case, or a wildcard for the first label of the host, which must not be
empty. -/
def MatchesRule (cn host : Bytes) : Prop :=
  IsHostName host ∧ (IsHostName cn ∧ eqIgnoringCase cn host ∨
    ∃ suffix label rest, Wildcard cn suffix ∧ FirstLabel host label rest ∧ label ≠ [] ∧
      eqIgnoringCase suffix rest)

/-- What the code takes: the label may be empty. -/
def Accepts (cn host : Bytes) : Prop :=
  IsHostName host ∧ (IsHostName cn ∧ eqIgnoringCase cn host ∨
    ∃ suffix label rest, Wildcard cn suffix ∧ FirstLabel host label rest ∧
      eqIgnoringCase suffix rest)

theorem scanName_eq (allowStar : Bool) (name : Bytes) (labels stars : Nat) :
    scanName allowStar name labels stars =
      if name.all (fun b => isHostByte b || (allowStar && b = STAR)) then
        some (labels + name.count DOT, stars + name.count STAR)
      else none := by
  induction name generalizing labels stars with
  | nil => rfl
  | cons b name ih =>
      rw [scanName, List.all_cons]
      cases hb : isHostByte b || (allowStar && b = STAR) with
      | false => rfl
      | true =>
          rw [if_pos rfl, ih, Bool.true_and, List.count_cons, List.count_cons]
          have hlabels : (if b = DOT then labels + 1 else labels) + name.count DOT =
              labels + (name.count DOT + if (b == DOT) = true then 1 else 0) := by
            simp only [beq_iff_eq]
            split <;> omega
          have hstars : (if b = STAR then stars + 1 else stars) + name.count STAR =
              stars + (name.count STAR + if (b == STAR) = true then 1 else 0) := by
            simp only [beq_iff_eq]
            split <;> omega
          rw [hlabels, hstars]

/-- The bytes a certificate name may have. -/
def IsPattern (cn : Bytes) : Prop := ∀ b ∈ cn, isHostByte b = true ∨ b = STAR

instance (cn : Bytes) : Decidable (IsPattern cn) :=
  inferInstanceAs (Decidable (∀ b ∈ cn, isHostByte b = true ∨ b = STAR))

theorem isHostByte_star : isHostByte STAR = false := by decide

theorem IsHostName.count_star {name : Bytes} (h : IsHostName name) : name.count STAR = 0 := by
  refine List.count_eq_zero.mpr fun hmem => ?_
  have := h STAR hmem
  rw [isHostByte_star] at this
  cases this

theorem IsPattern.isHostName {cn : Bytes} (h : IsPattern cn) (hstar : cn.count STAR = 0) :
    IsHostName cn := by
  intro b hb
  rcases h b hb with hhost | rfl
  · exact hhost
  · exact absurd hb (List.count_eq_zero.mp hstar)

theorem Wildcard.isPattern {cn suffix : Bytes} (h : Wildcard cn suffix) : IsPattern cn := by
  intro b hb
  rw [h.star, List.mem_cons, List.mem_cons] at hb
  rcases hb with rfl | rfl | hb
  · exact .inr rfl
  · exact .inl (by decide)
  · exact .inl (h.hostName b hb)

theorem Wildcard.count_star {cn suffix : Bytes} (h : Wildcard cn suffix) : cn.count STAR = 1 := by
  rw [h.star, List.count_cons_self, List.count_cons_of_ne (by decide), h.hostName.count_star]

theorem Wildcard.count_dot {cn suffix : Bytes} (h : Wildcard cn suffix) :
    cn.count DOT = suffix.count DOT + 1 := by
  rw [h.star, List.count_cons_of_ne (by decide), List.count_cons_self]

/-- What the code checks of a pattern with a star. -/
theorem wildcard_of_checks {cn : Bytes} (hpattern : IsPattern cn) (hstars : cn.count STAR = 1)
    (hstart : [STAR, DOT] <+: cn) (hlabels : 3 ≤ 1 + cn.count DOT) :
    Wildcard cn (cn.drop 2) := by
  obtain ⟨suffix, rfl⟩ := hstart
  change Wildcard (STAR :: DOT :: suffix) suffix
  change List.count STAR (STAR :: DOT :: suffix) = 1 at hstars
  change 3 ≤ 1 + List.count DOT (STAR :: DOT :: suffix) at hlabels
  rw [List.count_cons_self, List.count_cons_of_ne (by decide)] at hstars
  rw [List.count_cons_of_ne (by decide), List.count_cons_self] at hlabels
  refine ⟨rfl, IsPattern.isHostName (fun b hb => hpattern b ?_) (by omega), ?_⟩
  · exact List.mem_cons_of_mem _ (List.mem_cons_of_mem _ hb)
  · exact List.count_pos_iff.mp (by omega)

theorem FirstLabel.findIdx {host label rest : Bytes} (h : FirstLabel host label rest) :
    host.findIdx? (· = DOT) = some label.length := by
  rw [h.split, List.findIdx?_append, List.findIdx?_eq_none_iff.mpr fun b hb => ?_]
  · simp [List.findIdx?_cons]
  · exact decide_eq_false fun heq => h.single (heq ▸ hb)

theorem FirstLabel.drop {host label rest : Bytes} (h : FirstLabel host label rest) :
    host.drop (label.length + 1) = rest := by
  rw [h.split, ← List.drop_drop, List.drop_left, List.drop_one, List.tail_cons]

theorem FirstLabel.count_dot {host label rest : Bytes} (h : FirstLabel host label rest) :
    host.count DOT = rest.count DOT + 1 := by
  rw [h.split, List.count_append, List.count_eq_zero.mpr h.single, List.count_cons_self, Nat.zero_add]

/-- The first dot of a host ends its first label. -/
theorem firstLabel_of_findIdx {host : Bytes} {i : Nat} (h : host.findIdx? (· = DOT) = some i) :
    FirstLabel host (host.take i) (host.drop (i + 1)) := by
  obtain ⟨hlt, hdot, hbefore⟩ := List.findIdx?_eq_some_iff_getElem.mp h
  constructor
  · rw [← of_decide_eq_true hdot, ← List.drop_eq_getElem_cons hlt, List.take_append_drop]
  · intro hmem
    obtain ⟨j, hj, hget⟩ := List.getElem_of_mem hmem
    rw [List.length_take] at hj
    rw [List.getElem_take] at hget
    exact hbefore j (by omega) (by rw [hget]; rfl)

theorem toAsciiLowercase_eq_dot (b : UInt8) : toAsciiLowercase b = DOT ↔ b = DOT := by
  unfold toAsciiLowercase
  split
  next hupper =>
    obtain ⟨hlow, hhigh⟩ := hupper
    rw [UInt8.le_iff_toNat_le] at hlow hhigh
    change 65 ≤ b.toNat at hlow
    change b.toNat ≤ 90 at hhigh
    have hadd : (b + 0x20).toNat = b.toNat + 32 := by
      rw [UInt8.toNat_add]
      exact Nat.mod_eq_of_lt (by change b.toNat + 32 < 256; omega)
    have hdot : DOT.toNat = 46 := rfl
    constructor
    · intro h
      have := congrArg UInt8.toNat h
      omega
    · intro h
      have := congrArg UInt8.toNat h
      omega
  · exact Iff.rfl

/-- Names that differ in case only have the same number of labels. -/
theorem count_dot_of_eqIgnoringCase {a b : Bytes} (h : eqIgnoringCase a b = true) :
    a.count DOT = b.count DOT := by
  have hmap : ∀ name : Bytes, (name.map toAsciiLowercase).count DOT = name.count DOT := by
    intro name
    rw [List.count_eq_countP, List.countP_map, List.count_eq_countP]
    refine List.countP_congr fun c _ => ?_
    simp only [Function.comp, beq_iff_eq, toAsciiLowercase_eq_dot]
  rw [← hmap a, ← hmap b, of_decide_eq_true h]

theorem scanName_pattern (cn : Bytes) : scanName true cn 1 0 =
    if IsPattern cn then some (1 + cn.count DOT, cn.count STAR) else none := by
  rw [scanName_eq, Nat.zero_add]
  exact if_congr (by simp [IsPattern]) rfl rfl

theorem scanName_host (host : Bytes) : scanName false host 1 0 =
    if IsHostName host then some (1 + host.count DOT, host.count STAR) else none := by
  rw [scanName_eq, Nat.zero_add]
  exact if_congr (by simp [IsHostName]) rfl rfl

theorem sliceFrom_of_le {bytes : Bytes} {start : Nat} (h : start ≤ bytes.length) :
    sliceFrom bytes start = .ok (bytes.drop start) := if_pos h

/-- A pattern with a star against a host: the comparison behind the first dot decides, and the
count of the labels never says more. -/
theorem wildcard_accepts_iff {cn suffix host : Bytes} (hw : Wildcard cn suffix)
    (hhost : IsHostName host) :
    Accepts cn host ↔ ∃ i, host.findIdx? (· = DOT) = some i ∧
      eqIgnoringCase suffix (host.drop (i + 1)) = true := by
  have hnot : ¬IsHostName cn := by
    intro h
    have := h.count_star
    rw [hw.count_star] at this
    cases this
  constructor
  · rintro ⟨-, ⟨h, -⟩ | ⟨suffix', label, rest, hw', hlabel, heq⟩⟩
    · exact absurd h hnot
    · cases hw.star.symm.trans hw'.star
      refine ⟨label.length, hlabel.findIdx, ?_⟩
      rwa [hlabel.drop]
  · rintro ⟨i, hdot, heq⟩
    exact ⟨hhost, .inr ⟨suffix, _, _, hw, firstLabel_of_findIdx hdot, heq⟩⟩

theorem Accepts.isPattern {cn host : Bytes} (h : Accepts cn host) : IsPattern cn := by
  obtain ⟨-, ⟨hname, -⟩ | ⟨_, _, _, hw, -⟩⟩ := h
  · exact fun b hb => .inl (hname b hb)
  · exact hw.isPattern

/-- Without a star the whole names are compared. -/
theorem plain_accepts_iff {cn host : Bytes} (hstar : cn.count STAR = 0) (hpattern : IsPattern cn)
    (hhost : IsHostName host) : Accepts cn host ↔ eqIgnoringCase cn host = true := by
  constructor
  · rintro ⟨-, ⟨-, heq⟩ | ⟨_, _, _, hw, -⟩⟩
    · exact heq
    · rw [hw.count_star] at hstar
      cases hstar
  · intro heq
    exact ⟨hhost, .inl ⟨hpattern.isHostName hstar, heq⟩⟩

/-- With a star only a wildcard is accepted. -/
theorem Accepts.wildcard {cn host : Bytes} (h : Accepts cn host) (hstar : cn.count STAR ≠ 0) :
    ∃ suffix label rest, Wildcard cn suffix ∧ FirstLabel host label rest ∧
      eqIgnoringCase suffix rest = true := by
  obtain ⟨-, ⟨hname, -⟩ | hwildcard⟩ := h
  · exact absurd hname.count_star hstar
  · exact hwildcard

open scoped Classical in
/-- The matcher always answers. -/
theorem tlsHostnameMatchImpl_eq (cn host : Bytes) :
    tlsHostnameMatchImpl cn host = .ok (decide (Accepts cn host)) := by
  have hfalse : ¬Accepts cn host →
      (Except.ok false : Except Stop Bool) = .ok (decide (Accepts cn host)) :=
    fun h => by rw [decide_eq_false h]
  unfold tlsHostnameMatchImpl
  rw [scanName_pattern, scanName_host]
  by_cases hpattern : IsPattern cn
  swap
  · rw [if_neg hpattern]
    exact hfalse fun h => hpattern h.isPattern
  by_cases hhost : IsHostName host
  swap
  · rw [if_pos hpattern, if_neg hhost]
    exact hfalse fun h => hhost h.1
  rw [if_pos hpattern, if_pos hhost]
  dsimp only
  by_cases hstar : cn.count STAR = 0
  · simp only [if_pos hstar, plain_accepts_iff hstar hpattern hhost, Bool.decide_eq_true]
  rw [if_neg hstar]
  -- a wildcard passes each of the checks
  by_cases hone : cn.count STAR = 1
  swap
  · rw [if_pos hone]
    refine hfalse fun h => ?_
    obtain ⟨_, _, _, hw, -⟩ := h.wildcard hstar
    exact hone hw.count_star
  rw [if_neg (not_not.mpr hone)]
  by_cases hstart : [STAR, DOT] <+: cn
  swap
  · rw [if_pos hstart]
    refine hfalse fun h => ?_
    obtain ⟨suffix, _, _, hw, -⟩ := h.wildcard hstar
    exact hstart ⟨suffix, hw.star.symm⟩
  rw [if_neg (not_not.mpr hstart)]
  by_cases hlabels : 1 + cn.count DOT < 3
  · rw [if_pos hlabels]
    refine hfalse fun h => ?_
    obtain ⟨_, _, _, hw, -⟩ := h.wildcard hstar
    have hcount := hw.count_dot
    have hpos := List.count_pos_iff.mpr hw.dotted
    omega
  rw [if_neg hlabels]
  by_cases hcount : 1 + cn.count DOT = 1 + host.count DOT
  swap
  · rw [if_pos hcount]
    refine hfalse fun h => ?_
    obtain ⟨_, _, _, hw, hlabel, heq⟩ := h.wildcard hstar
    rw [hw.count_dot, hlabel.count_dot, count_dot_of_eqIgnoringCase heq] at hcount
    exact hcount rfl
  rw [if_neg (not_not.mpr hcount)]
  have hw := wildcard_of_checks hpattern hone hstart (by omega)
  have hiff := wildcard_accepts_iff hw hhost
  rw [sliceFrom_of_le (show 2 ≤ cn.length from hstart.length_le), ok_bind]
  cases hdot : host.findIdx? (· = DOT) with
  | none =>
      refine hfalse fun h => ?_
      obtain ⟨i, hi, -⟩ := hiff.mp h
      rw [hdot] at hi
      cases hi
  | some i =>
      obtain ⟨hlt, -⟩ := List.findIdx?_eq_some_iff_getElem.mp hdot
      simp only [sliceFrom_of_le hlt, ok_bind]
      have : Accepts cn host ↔ eqIgnoringCase (cn.drop 2) (host.drop (i + 1)) = true := by
        rw [hiff]
        constructor
        · rintro ⟨j, hj, heq⟩
          cases hdot.symm.trans hj
          exact heq
        · exact fun heq => ⟨i, hdot, heq⟩
      simp only [this, Bool.decide_eq_true, pure, Except.pure]

theorem tlsHostnameMatchImpl_eq_true {cn host : Bytes} :
    tlsHostnameMatchImpl cn host = .ok true ↔ Accepts cn host := by
  classical
  rw [tlsHostnameMatchImpl_eq, Except.ok.injEq, decide_eq_true_iff]

/-- A wildcard and a host that begins with a dot and goes on as the wildcard does. -/
def EmptyLabel (cn host : Bytes) : Prop :=
  ∃ suffix rest, Wildcard cn suffix ∧ host = DOT :: rest ∧ IsHostName rest ∧
    eqIgnoringCase suffix rest = true

theorem MatchesRule.accepts {cn host : Bytes} (h : MatchesRule cn host) : Accepts cn host := by
  obtain ⟨hhost, hsame | ⟨suffix, label, rest, hw, hlabel, -, heq⟩⟩ := h
  · exact ⟨hhost, .inl hsame⟩
  · exact ⟨hhost, .inr ⟨suffix, label, rest, hw, hlabel, heq⟩⟩

/-- The matcher takes what the rule takes, and a wildcard for an empty label. -/
theorem accepts_iff {cn host : Bytes} :
    Accepts cn host ↔ MatchesRule cn host ∨ EmptyLabel cn host := by
  constructor
  · rintro ⟨hhost, hsame | ⟨suffix, label, rest, hw, hlabel, heq⟩⟩
    · exact .inl ⟨hhost, .inl hsame⟩
    · cases hempty : label with
      | nil =>
          have hsplit : host = DOT :: rest := by
            rw [hlabel.split, hempty, List.nil_append]
          exact .inr ⟨suffix, rest, hw, hsplit,
            fun b hb => hhost b (hsplit ▸ List.mem_cons_of_mem _ hb), heq⟩
      | cons b label' =>
          refine .inl ⟨hhost, .inr ⟨suffix, label, rest, hw, hlabel, ?_, heq⟩⟩
          rw [hempty]
          exact List.cons_ne_nil _ _
  · rintro (h | ⟨suffix, rest, hw, rfl, hrest, heq⟩)
    · exact h.accepts
    · refine ⟨fun b hb => ?_, .inr ⟨suffix, [], rest, hw, ⟨rfl, List.not_mem_nil⟩, heq⟩⟩
      rcases List.mem_cons.mp hb with rfl | hb
      · decide
      · exact hrest b hb

/-- The rule leaves no room for an empty label. -/
theorem EmptyLabel.not_matchesRule {cn host : Bytes} (h : EmptyLabel cn host) :
    ¬MatchesRule cn host := by
  obtain ⟨suffix, rest, hw, rfl, -, -⟩ := h
  rintro ⟨-, ⟨hname, -⟩ | ⟨_, label, rest', -, hlabel, hne, -⟩⟩
  · have := hname.count_star
    rw [hw.count_star] at this
    cases this
  · have hsplit := hlabel.split
    cases label with
    | nil => exact hne rfl
    | cons b label =>
        cases hsplit
        exact hlabel.single (List.mem_cons_self ..)

/-- The matcher answers as the rule does, except where it takes an empty label. -/
theorem tlsHostnameMatchImpl_rule_iff (cn host : Bytes) :
    (tlsHostnameMatchImpl cn host = .ok true ↔ MatchesRule cn host) ↔ ¬EmptyLabel cn host := by
  rw [tlsHostnameMatchImpl_eq_true, accepts_iff]
  constructor
  · intro h hempty
    exact hempty.not_matchesRule (h.mp (.inr hempty))
  · intro hempty
    exact ⟨fun h => h.resolve_right hempty, .inl⟩

/-- `*.example.com` is taken for `.example.com`. -/
theorem emptyLabel_accepted :
    let cn := ascii "*.example.com".toList
    let host := ascii ".example.com".toList
    tlsHostnameMatchImpl cn host = .ok true ∧ ¬MatchesRule cn host := by
  refine ⟨by decide, EmptyLabel.not_matchesRule ⟨ascii "example.com".toList,
    ascii "example.com".toList, ⟨rfl, ?_, ?_⟩, rfl, ?_, ?_⟩⟩
  · decide +kernel
  · decide +kernel
  · decide +kernel
  · decide +kernel

theorem anyM_of_ok {α : Type} {f : α → Except Stop Bool} {p : α → Bool} (hf : ∀ a, f a = .ok (p a))
    (l : List α) : l.anyM f = .ok (l.any p) := by
  induction l with
  | nil => rfl
  | cons a l ih =>
      rw [List.anyM, hf a, ok_bind, List.any_cons]
      cases p a with
      | true => rfl
      | false => exact ih

open scoped Classical in
theorem tlsHostnameMatch_some (names : CertificateNames) (host : Bytes) :
    tlsHostnameMatch names (some host) = .ok (decide
      ((∃ san ∈ names.sanDnsNames, Accepts san host) ∨
        ∃ cn, names.commonName = some cn ∧ Accepts cn host)) := by
  rw [tlsHostnameMatch, anyM_of_ok (tlsHostnameMatchImpl_eq · host), ok_bind]
  cases hsan : names.sanDnsNames.any fun san => decide (Accepts san host) with
  | true =>
      obtain ⟨san, hmem, haccepts⟩ := List.any_eq_true.mp hsan
      rw [decide_eq_true (.inl ⟨san, hmem, of_decide_eq_true haccepts⟩)]
      rfl
  | false =>
      have hnone : ¬∃ san ∈ names.sanDnsNames, Accepts san host := by
        rintro ⟨san, hmem, haccepts⟩
        exact List.any_eq_false.mp hsan san hmem (decide_eq_true haccepts)
      cases hcn : names.commonName with
      | none =>
          rw [decide_eq_false (by simp [hnone])]
          rfl
      | some cn =>
          simp only [hnone, false_or, Option.some.injEq, exists_eq_left', tlsHostnameMatchImpl_eq,
            Bool.false_eq_true, if_false]

theorem tlsHostnameMatch_some_eq_true {names : CertificateNames} {host : Bytes} :
    tlsHostnameMatch names (some host) = .ok true ↔
      (∃ san ∈ names.sanDnsNames, Accepts san host) ∨
        ∃ cn, names.commonName = some cn ∧ Accepts cn host := by
  classical
  rw [tlsHostnameMatch_some, Except.ok.injEq, decide_eq_true_iff]

/-- Where there are subject alternative names they decide, and the common name is not looked at. -/
structure SansDecide (names : CertificateNames) (host : Bytes) : Prop where
  matched : tlsHostnameMatch names (some host) = .ok true →
    ∃ san ∈ names.sanDnsNames, tlsHostnameMatchImpl san host = .ok true
  ignored : tlsHostnameMatch names (some host) =
    tlsHostnameMatch { names with commonName := none } (some host)

/-- They decide unless none of them matches the host and the common name does. -/
theorem sansDecide_iff (names : CertificateNames) (host : Bytes) :
    (names.sanDnsNames ≠ [] → SansDecide names host) ↔
      names.sanDnsNames = [] ∨ (∃ san ∈ names.sanDnsNames, Accepts san host) ∨
        ∀ cn, names.commonName = some cn → ¬Accepts cn host := by
  classical
  constructor
  · intro h
    by_cases hnil : names.sanDnsNames = []
    · exact .inl hnil
    by_cases hsan : ∃ san ∈ names.sanDnsNames, Accepts san host
    · exact .inr (.inl hsan)
    refine .inr (.inr fun cn hcn haccepts => hsan ?_)
    obtain ⟨san, hmem, hmatch⟩ := (h hnil).matched
      (tlsHostnameMatch_some_eq_true.mpr (.inr ⟨cn, hcn, haccepts⟩))
    exact ⟨san, hmem, tlsHostnameMatchImpl_eq_true.mp hmatch⟩
  · rintro (hnil | hsan | hcn) hne
    · exact absurd hnil hne
    · constructor
      · intro _
        obtain ⟨san, hmem, haccepts⟩ := hsan
        exact ⟨san, hmem, tlsHostnameMatchImpl_eq_true.mpr haccepts⟩
      · rw [tlsHostnameMatch_some, tlsHostnameMatch_some, decide_eq_true (.inl hsan),
          decide_eq_true (.inl hsan)]
    · have hnone : ¬∃ cn, names.commonName = some cn ∧ Accepts cn host :=
        fun ⟨cn, hsome, haccepts⟩ => hcn cn hsome haccepts
      constructor
      · intro hmatch
        obtain ⟨san, hmem, haccepts⟩ := (tlsHostnameMatch_some_eq_true.mp hmatch).resolve_right hnone
        exact ⟨san, hmem, tlsHostnameMatchImpl_eq_true.mpr haccepts⟩
      · simp only [tlsHostnameMatch_some, hnone, reduceCtorEq, false_and, exists_false]

/-- A certificate for another host, whose common name is the host. -/
theorem commonName_beside_sans :
    let names : CertificateNames :=
      ⟨some (ascii "b.example".toList), [ascii "a.example".toList]⟩
    let host := ascii "b.example".toList
    names.sanDnsNames ≠ [] ∧ tlsHostnameMatch names (some host) = .ok true ∧
      ¬∃ san ∈ names.sanDnsNames, tlsHostnameMatchImpl san host = .ok true := by
  intro names host
  refine ⟨by decide, by decide, ?_⟩
  rintro ⟨san, hmem, hmatch⟩
  rw [List.mem_singleton.mp hmem] at hmatch
  revert hmatch
  decide

end GatoPskTls.Pki
