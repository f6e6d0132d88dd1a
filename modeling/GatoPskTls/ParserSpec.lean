import GatoPskTls.Extensions

/-!
# What a parser makes of given bytes

`Takes p w r` fixes the answer of a parser wherever the bytes `w` are ahead of it: the
answer is `r`, and a value is returned with exactly `w` read. Readers compose by
appending the bytes they take, and a loop over chunks is a fold over them.
-/
namespace GatoPskTls

open Stateful BigEndian ParseBuffer

/-- Nothing is said about the cursor after an error. -/
def Takes {ε α : Type} (p : Parser ε α) (w : Bytes) : Except ε α → Prop
  | .ok a => ∀ b rest, b.rest = w ++ rest → ∃ b', p b = .ok a b' ∧ Reads b w b'
  | .error e => ∀ b rest, b.rest = w ++ rest → ∃ b', p b = .error e b'

namespace Takes

variable {ε ε' α β : Type} {p : Parser ε α} {u v w : Bytes}

theorem outcome_eq {r : Except ε α} (h : Takes p w r) {b : ParseBuffer} {rest : Bytes}
    (hb : b.rest = w ++ rest) : outcome (p b) = r := by
  cases r with
  | ok a =>
      obtain ⟨b', hp, -⟩ := h b rest hb
      rw [hp, outcome_ok]
  | error e =>
      obtain ⟨b', hp⟩ := h b rest hb
      rw [hp, outcome_error]

theorem of_reads {a : α} (h : Takes p w (.ok a)) {b b' : ParseBuffer} (hr : Reads b w b') :
    p b = .ok a b' := by
  obtain ⟨c, hp, hc⟩ := h b _ hr.rest_eq
  rw [hp, (hc.unique hr rfl).2]

theorem outcome_new {r : Except ε α} (h : Takes p w r) : outcome (p (new w)) = r :=
  h.outcome_eq ((new_rest w).trans (List.append_nil w).symm)

theorem pure (a : α) : Takes (pure a : Parser ε α) [] (.ok a) :=
  fun b _ _ => ⟨b, rfl, .refl b⟩

theorem throw (e : ε) (w : Bytes) : Takes (throw e : Parser ε α) w (.error e) :=
  fun b _ _ => ⟨b, rfl⟩

theorem bind {f : α → Parser ε β} {a : α} {r : Except ε β} (hp : Takes p u (.ok a))
    (hf : Takes (f a) v r) : Takes (p >>= f) (u ++ v) r := by
  cases r with
  | ok c =>
      intro b rest hb
      rw [List.append_assoc] at hb
      obtain ⟨b₁, h₁, hr₁⟩ := hp b _ hb
      obtain ⟨b₂, h₂, hr₂⟩ := hf b₁ rest (List.append_cancel_left (hr₁.rest_eq.symm.trans hb))
      exact ⟨b₂, by rw [bind_of_ok h₁, h₂], hr₁.trans hr₂⟩
  | error e =>
      intro b rest hb
      rw [List.append_assoc] at hb
      obtain ⟨b₁, h₁, hr₁⟩ := hp b _ hb
      obtain ⟨b₂, h₂⟩ := hf b₁ rest (List.append_cancel_left (hr₁.rest_eq.symm.trans hb))
      exact ⟨b₂, by rw [bind_of_ok h₁, h₂]⟩

/-- What follows the read looks at its value only. -/
theorem bind_last {f : α → Parser ε β} {a : α} {r : Except ε β} (hp : Takes p w (.ok a))
    (hf : Takes (f a) [] r) : Takes (p >>= f) w r :=
  List.append_nil w ▸ hp.bind hf

theorem bind_error {f : α → Parser ε β} {e : ε} (hp : Takes p u (.error e)) (v : Bytes) :
    Takes (p >>= f) (u ++ v) (.error e) := by
  intro b rest hb
  rw [List.append_assoc] at hb
  obtain ⟨b₁, h₁⟩ := hp b _ hb
  exact ⟨b₁, bind_of_error h₁⟩

/-- A reader whose value is only wrapped afterwards. -/
theorem map {g : α → β} {r : Except ε α} (hp : Takes p w r) :
    Takes (do return g (← p)) w (r.map g) := by
  cases r with
  | ok a => exact hp.bind_last (pure (g a))
  | error e => exact List.append_nil w ▸ hp.bind_error (f := fun a => Pure.pure (g a)) []

theorem mapError {g : ε → ε'} {r : Except ε α} (hp : Takes p w r) :
    Takes (Stateful.mapError g p) w (r.mapError g) := by
  cases r with
  | ok a =>
      intro b rest hb
      obtain ⟨b', h, hr⟩ := hp b rest hb
      exact ⟨b', mapError_of_ok h, hr⟩
  | error e =>
      intro b rest hb
      obtain ⟨b', h⟩ := hp b rest hb
      exact ⟨b', mapError_of_error h⟩

theorem within (p : Parser ε α) (data : ParseBuffer) :
    Takes (within data p) [] (outcome (p data)) := by
  cases h : p data with
  | ok a d => exact fun b _ _ => ⟨b, by rw [ParseBuffer.within, h], .refl b⟩
  | error e d => exact fun b _ _ => ⟨b, by rw [ParseBuffer.within, h]⟩

end Takes

section Readers

variable {α : Type}

theorem takes_readU8 (v : UInt8) : Takes readU8 [v] (.ok v) := by
  intro b rest hb
  obtain ⟨b', hr, -⟩ := exists_reads hb
  exact ⟨b', readU8_eq_ok.mpr hr, hr⟩

theorem takes_readU16 {v : Nat} (hv : v < 256 ^ 2) : Takes readU16 (bigEndian 2 v) (.ok v) := by
  intro b rest hb
  obtain ⟨b', hr, -⟩ := exists_reads hb
  exact ⟨b', readU16_eq_ok.mpr ⟨hv, hr⟩, hr⟩

theorem takes_readU24 {v : Nat} (hv : v < 256 ^ 3) : Takes readU24 (bigEndian 3 v) (.ok v) := by
  intro b rest hb
  obtain ⟨b', hr, -⟩ := exists_reads hb
  exact ⟨b', readU24_eq_ok.mpr ⟨hv, hr⟩, hr⟩

theorem takes_readU32 {v : Nat} (hv : v < 256 ^ 4) : Takes readU32 (bigEndian 4 v) (.ok v) := by
  intro b rest hb
  obtain ⟨b', hr, -⟩ := exists_reads hb
  exact ⟨b', readU32_eq_ok.mpr ⟨hv, hr⟩, hr⟩

theorem takes_slice {w : Bytes} {n : Nat} (h : w.length = n) : Takes (slice n) w (.ok (new w)) := by
  intro b rest hb
  obtain ⟨b', hr, -⟩ := exists_reads hb
  exact ⟨b', slice_eq_ok.mpr ⟨w, rfl, h, hr⟩, hr⟩

theorem takes_fill {n : Nat} (w : GenericArray n) : Takes (fill n) w.val (.ok w) := by
  intro b rest hb
  obtain ⟨b', hr, -⟩ := exists_reads hb
  exact ⟨b', fill_eq_ok.mpr hr, hr⟩

/-- The answer to a code point. -/
def lookup {κ : Type} (of : κ → Option α) (code : κ) : Except ParseError α :=
  match of code with
  | some a => .ok a
  | none => .error .invalidData

/-- A code point is looked up; an unknown one is read all the same. -/
theorem takes_attempt_readEnum16 {ε' : Type} {of : Nat → Option α} {v : Nat} (hv : v < 256 ^ 2) :
    Takes (attempt (readEnum16 of) : Parser ε' _) (bigEndian 2 v)
      (.ok (lookup of v)) := by
  intro b rest hb
  obtain ⟨b', h, hr⟩ := takes_readU16 hv b rest hb
  refine ⟨b', ?_, hr⟩
  rw [attempt, readEnum16, bind_of_ok h, lookup]
  cases of v with
  | none => rfl
  | some a => rfl

theorem takes_readEnum16 {of : Nat → Option α} {v : Nat} (hv : v < 256 ^ 2) :
    Takes (readEnum16 of) (bigEndian 2 v) (lookup of v) := by
  apply (takes_readU16 hv).bind_last
  unfold lookup
  cases of v with
  | none => exact .throw _ _
  | some a => exact .pure a

theorem takes_readEnum8 {of : UInt8 → Option α} (v : UInt8) :
    Takes (readEnum8 of) [v] (lookup of v) := by
  apply (takes_readU8 v).bind_last
  unfold lookup
  cases of v with
  | none => exact .throw _ _
  | some a => exact .pure a

end Readers

section Loops

variable {ε α β : Type}

/-- A loop over a buffer made of chunks is a fold over the chunks. -/
theorem outcome_whileNotEmpty {step : α → Parser ε α} {f : α → β → Except ε α} {wire : β → Bytes}
    {xs : List β} (hpos : ∀ x ∈ xs, 0 < (wire x).length)
    (hstep : ∀ x ∈ xs, ∀ acc, Takes (step acc) (wire x) (f acc x)) {n : Nat} {acc : α}
    {b : ParseBuffer} (hn : b.remaining ≤ n) (hb : b.rest = xs.flatMap wire) :
    outcome (whileNotEmpty step n acc b) = xs.foldlM f acc := by
  induction xs generalizing n acc b with
  | nil =>
      have hempty := isEmpty_iff.mpr hb
      cases n with
      | zero => rfl
      | succ n =>
          simp only [whileNotEmpty, get_bind_apply, hempty, if_true, pure_apply, outcome_ok]
          rfl
  | cons x xs ih =>
      rw [List.forall_mem_cons] at hpos hstep
      rw [List.flatMap_cons] at hb
      have hlen : b.remaining = (wire x).length + (xs.flatMap wire).length := by
        rw [← rest_length, hb, List.length_append]
      obtain ⟨m, rfl⟩ : ∃ m, n = m + 1 := ⟨n - 1, by omega⟩
      have hne : b.isEmpty = false := isEmpty_eq_false.mpr (by omega)
      have hx := hstep.1 acc
      simp only [whileNotEmpty, get_bind_apply, hne, Bool.false_eq_true, if_false, List.foldlM_cons]
      cases hf : f acc x with
      | error e =>
          rw [hf] at hx
          obtain ⟨b', h⟩ := hx b _ hb
          rw [bind_of_error h, outcome_error, error_bind]
      | ok acc' =>
          rw [hf] at hx
          obtain ⟨b', h, hr⟩ := hx b _ hb
          have hremaining := hr.remaining_eq
          rw [bind_of_ok h, ok_bind]
          exact ih hpos.2 hstep.2 (by omega) (List.append_cancel_left (hr.rest_eq.symm.trans hb))

/-- The turns of a loop, one for each chunk. -/
inductive Turns (turn : α → β → α → Prop) : α → List β → α → Prop
  | nil (acc : α) : Turns turn acc [] acc
  | cons {acc acc' acc'' : α} {x : β} {xs : List β} :
      turn acc x acc' → Turns turn acc' xs acc'' → Turns turn acc (x :: xs) acc''

/-- With nothing left there is no turn. -/
theorem turns_of_rest_nil {turn : α → β → α → Prop} {wire : β → Bytes}
    (hpos : ∀ x, 0 < (wire x).length) {acc acc' : α} {b b' : ParseBuffer} (hrest : b.rest = []) :
    (∃ xs, Turns turn acc xs acc' ∧ Reads b (xs.flatMap wire) b' ∧ b'.rest = []) ↔
      acc = acc' ∧ b = b' := by
  constructor
  · rintro ⟨xs, hturns, hreads, -⟩
    cases hturns with
    | nil => exact ⟨rfl, ((Reads.refl b).unique hreads rfl).2⟩
    | @cons _ _ _ x xs =>
        have hlen := congrArg List.length hreads.rest_eq
        have hx := hpos x
        rw [hrest, List.flatMap_cons, List.length_append, List.length_append,
          List.length_nil] at hlen
        omega
  · rintro ⟨rfl, rfl⟩
    exact ⟨[], .nil _, .refl _, hrest⟩

/-- A loop whose turns read one chunk each succeeds exactly on buffers made of such chunks. -/
theorem whileNotEmpty_eq_ok_iff {step : α → Parser ε α} {turn : α → β → α → Prop}
    {wire : β → Bytes} (hpos : ∀ x, 0 < (wire x).length)
    (hstep : ∀ acc b acc' b', step acc b = .ok acc' b' ↔
      ∃ x, turn acc x acc' ∧ Reads b (wire x) b')
    {n : Nat} {acc acc' : α} {b b' : ParseBuffer} (hn : b.remaining ≤ n) :
    whileNotEmpty step n acc b = .ok acc' b' ↔
      ∃ xs, Turns turn acc xs acc' ∧ Reads b (xs.flatMap wire) b' ∧ b'.rest = [] := by
  induction n generalizing acc b with
  | zero =>
      have hrest : b.rest = [] := List.length_eq_zero_iff.mp (by rw [rest_length]; omega)
      rw [turns_of_rest_nil hpos hrest]
      simp only [whileNotEmpty, pure_apply, EStateM.Result.ok.injEq]
  | succ n ih =>
      simp only [whileNotEmpty, get_bind_apply]
      cases hempty : b.isEmpty with
      | true =>
          rw [turns_of_rest_nil hpos (isEmpty_iff.mp hempty)]
          simp only [if_true, pure_apply, EStateM.Result.ok.injEq]
      | false =>
          simp only [Bool.false_eq_true, if_false, bind_eq_ok, hstep]
          -- one turn, and the loop on what it leaves
          constructor
          · rintro ⟨mid, c, ⟨x, hturn, hx⟩, hloop⟩
            have hlen := hx.remaining_eq
            have hlt := hpos x
            obtain ⟨xs, hturns, hxs, hend⟩ := (ih (by omega)).mp hloop
            exact ⟨x :: xs, .cons hturn hturns, by simpa using hx.trans hxs, hend⟩
          · rintro ⟨xs, hturns, hreads, hend⟩
            cases hturns with
            | nil =>
                have hrest := hreads.rest_eq
                rw [hend] at hrest
                rw [isEmpty_iff.mpr hrest] at hempty
                cases hempty
            | @cons _ mid _ x xs hturn hturns =>
                rw [List.flatMap_cons] at hreads
                have hsplit := hreads.rest_eq
                rw [List.append_assoc] at hsplit
                obtain ⟨c, hx, hrest⟩ := exists_reads hsplit
                have hlen := hx.remaining_eq
                have hlt := hpos x
                have hxs : Reads c (xs.flatMap wire) b' := by
                  refine ⟨hreads.buffer_eq.trans hx.buffer_eq.symm, ?_, hrest⟩
                  rw [hreads.pos_eq, hx.pos_eq, List.length_append, Nat.add_assoc]
                exact ⟨mid, c, ⟨x, hturn, hx⟩, (ih (by omega)).mpr ⟨xs, hturns, hxs, hend⟩⟩

/-- A loop that empties a slice of its own. -/
theorem takes_within_loop {step : α → Parser ε α} {f : α → β → Except ε α} {wire : β → Bytes}
    {xs : List β} (hpos : ∀ x ∈ xs, 0 < (wire x).length)
    (hstep : ∀ x ∈ xs, ∀ acc, Takes (step acc) (wire x) (f acc x)) (acc : α) :
    Takes (within (new (xs.flatMap wire))
      (whileNotEmpty step (new (xs.flatMap wire)).remaining acc)) [] (xs.foldlM f acc) := by
  rw [← outcome_whileNotEmpty hpos hstep (Nat.le_refl _) (new_rest _)]
  exact .within _ _

/-- The loops of the source: take a slice of the announced length, then empty it. -/
theorem takes_sliceLoop {step : α → Parser ParseError α} {f : α → β → Except ParseError α}
    {wire : β → Bytes} {xs : List β} (hpos : ∀ x ∈ xs, 0 < (wire x).length)
    (hstep : ∀ x ∈ xs, ∀ acc, Takes (step acc) (wire x) (f acc x)) (acc : α) {n : Nat}
    (hn : (xs.flatMap wire).length = n) :
    Takes (do let data ← slice n; within data (whileNotEmpty step data.remaining acc))
      (xs.flatMap wire) (xs.foldlM f acc) := by
  apply (takes_slice hn).bind_last
  exact takes_within_loop hpos hstep acc

/-- Push what is made of each chunk, into a vector of capacity `N`. -/
def gather (N : Nat) (read : β → Except ParseError α) (acc : List α) (x : β) :
    Except ParseError (List α) := do
  let a ← read x
  if acc.length < N then .ok (acc ++ [a]) else .error .insufficientSpace

theorem takes_readList {read : Parser ParseError α} {of : β → Except ParseError α}
    {wire : β → Bytes} {xs : List β} (hpos : ∀ x ∈ xs, 0 < (wire x).length)
    (hread : ∀ x ∈ xs, Takes read (wire x) (of x)) (N : Nat) {n : Nat}
    (hn : (xs.flatMap wire).length = n) :
    Takes (readList N n read) (xs.flatMap wire) (xs.foldlM (gather N of) []) := by
  have hstep : ∀ x ∈ xs, ∀ acc, Takes (do pushWithin N .insufficientSpace acc (← read)) (wire x)
      (gather N of acc x) := by
    intro x hx acc
    have hx := hread x hx
    unfold gather
    cases hof : of x with
    | error e =>
        rw [hof] at hx
        simpa using hx.bind_error (f := pushWithin N .insufficientSpace acc) []
    | ok a =>
        rw [hof] at hx
        apply hx.bind_last
        rw [ok_bind]
        unfold pushWithin
        split
        · exact .pure _
        · exact .throw _ _
  apply (takes_slice hn).bind_last
  exact takes_within_loop hpos hstep []

/-- Chunks that are all understood and fit the vector are its content. -/
theorem foldlM_gather_ok {N : Nat} {of : β → Except ParseError α} {val : β → α} {xs : List β}
    (hof : ∀ x ∈ xs, of x = .ok (val x)) {acc : List α} (hN : acc.length + xs.length ≤ N) :
    xs.foldlM (gather N of) acc = .ok (acc ++ xs.map val) := by
  induction xs generalizing acc with
  | nil => simp [pure, Except.pure]
  | cons x xs ih =>
      rw [List.forall_mem_cons] at hof
      rw [List.length_cons] at hN
      rw [List.foldlM_cons, gather, hof.1, ok_bind, if_pos (by omega), ok_bind,
        ih hof.2 (by simp; omega)]
      simp

/-- One chunk more than the vector holds is an error, whichever chunks they are. -/
theorem foldlM_gather_full {N : Nat} {of : β → Except ParseError α} {xs : List β} {acc : List α}
    (hN : N < acc.length + xs.length) (hacc : acc.length ≤ N) :
    ∃ e, xs.foldlM (gather N of) acc = .error e := by
  induction xs generalizing acc with
  | nil => simp at hN; omega
  | cons x xs ih =>
      rw [List.length_cons] at hN
      rw [List.foldlM_cons, gather]
      cases of x with
      | error e => exact ⟨e, rfl⟩
      | ok a =>
          rw [ok_bind]
          split
          · rw [ok_bind]
            exact ih (by simp; omega) (by simp; omega)
          · exact ⟨_, rfl⟩

/-- One chunk that is not understood is an error, wherever it stands. -/
theorem foldlM_gather_bad {N : Nat} {of : β → Except ParseError α} {xs : List β} {x : β}
    {e : ParseError} (hx : x ∈ xs) (hof : of x = .error e) (acc : List α) :
    ∃ e, xs.foldlM (gather N of) acc = .error e := by
  induction xs generalizing acc with
  | nil => cases hx
  | cons y xs ih =>
      rw [List.foldlM_cons, gather]
      rcases List.mem_cons.mp hx with rfl | hx
      · rw [hof]
        exact ⟨e, rfl⟩
      · cases of y with
        | error e => exact ⟨e, rfl⟩
        | ok a =>
            rw [ok_bind]
            split
            · rw [ok_bind]
              exact ih hx _
            · exact ⟨_, rfl⟩

end Loops

end GatoPskTls
