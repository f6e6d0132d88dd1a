import GatoPskTls.Lib.Demands
import GatoPskTls.Extensions

/-!
# Parsers: what reading asks

The readers of a parse buffer once more, with every index, slice and sum they use. Every bound is
checked before it is used, so in a buffer that memory can hold everything asked is met, whatever
stands in it.
-/
namespace GatoPskTls.Checked

open GatoPskTls Stateful BigEndian Tracing Traced Demands

variable {ε ε' α β : Type}

abbrev ParserM (ε α : Type) := Traced Demand ε ParseBuffer α

/-- In a buffer that memory can hold everything asked is met, and the result is as told. -/
def Bounded (limit : Nat) (x : ParserM ε α) (post : α → Prop) : Prop :=
  ∀ buffer : Bytes, 2 * buffer.length < limit → Safe limit (fun b => b.buffer = buffer) x
    (fun a b => b.buffer = buffer ∧ post a) fun _ b => b.buffer = buffer

namespace Bounded

variable {limit : Nat} {x : ParserM ε α} {post : α → Prop}

theorem pure {a : α} (h : post a) : Bounded limit (Pure.pure a : ParserM ε α) post :=
  fun _ _ => .bare fun _ hb => ⟨hb, h⟩

theorem throw (e : ε) : Bounded limit (bare (MonadExcept.throw e) : ParserM ε α) post :=
  fun _ _ => .bare fun _ hb => hb

theorem bind {f : α → ParserM ε β} {post' : β → Prop} (hx : Bounded limit x post)
    (hf : ∀ a, post a → Bounded limit (f a) post') : Bounded limit (x >>= f) post' :=
  fun buffer hbuffer => (hx buffer hbuffer).bind fun a l b hb =>
    hf a hb.2.2 buffer hbuffer l b ⟨hb.1, hb.2.1⟩

theorem mapError {g : ε → ε'} (hx : Bounded limit x post) : Bounded limit (.mapError g x) post :=
  fun buffer hbuffer => (hx buffer hbuffer).mapError fun _ _ hb => hb

theorem weaken {post' : α → Prop} (hx : Bounded limit x post) (h : ∀ a, post a → post' a) :
    Bounded limit x post' :=
  fun buffer hbuffer => (hx buffer hbuffer).mono (fun a _ hb => ⟨hb.1, h a hb.2⟩) fun _ _ hb => hb

theorem get_bind {f : ParseBuffer → ParserM ε α}
    (h : ∀ b : ParseBuffer, 2 * b.buffer.length < limit → Bounded limit (f b) post) :
    Bounded limit (bare get >>= f) post :=
  fun buffer hbuffer => .get_bind fun b hb =>
    (h b (hb ▸ hbuffer) buffer hbuffer).weaken fun _ hs => hs ▸ hb

theorem demand {l : List Demand} (h : AllMet limit l) :
    Bounded limit (demand l : ParserM ε Unit) fun _ => True :=
  fun _ _ => (Safe.demand fun _ _ => h).mono (fun _ _ hb => ⟨hb, trivial⟩) fun _ _ hb => hb

end Bounded

def within (data : ParseBuffer) (p : ParserM ε α) : ParserM ε α :=
  .onPart (fun _ => data) (fun b _ => b) p

@[simp] theorem erase_within (data : ParseBuffer) (p : ParserM ε α) :
    (within data p).erase = ParseBuffer.within data p.erase := by
  rw [within, erase_onPart]
  funext b
  simp only [Stateful.onPart, ParseBuffer.within]
  cases p.erase data with
  | ok a b' => rfl
  | error e b' => rfl

theorem within_bounded {limit : Nat} {data : ParseBuffer} {p : ParserM ε α} {post : α → Prop}
    (hdata : 2 * data.buffer.length < limit) (hp : Bounded limit p post) :
    Bounded limit (within data p) post := by
  refine fun buffer _ => .onPart fun b hb => ?_
  have hrun := (hp data.buffer hdata).starting (s := data) rfl
  exact hrun.mono (fun _ _ h => ⟨hb, h.2⟩) fun _ _ _ => hb

def attempt (p : ParserM ε α) : ParserM ε' (Except ε α) := fun b =>
  match p b with
  | (.ok a b', l) => (.ok (.ok a) b', l)
  | (.error e b', l) => (.ok (.error e) b', l)

@[simp] theorem erase_attempt (p : ParserM ε α) :
    (attempt p : ParserM ε' (Except ε α)).erase = GatoPskTls.attempt p.erase := by
  funext b
  simp only [erase, attempt, GatoPskTls.attempt]
  rcases p b with ⟨r, l⟩
  cases r with
  | ok a b' => rfl
  | error e b' => rfl

theorem attempt_bounded {limit : Nat} {p : ParserM ε α} {post : α → Prop}
    (hp : Bounded limit p post) :
    Bounded limit (attempt p : ParserM ε' (Except ε α)) fun r => ∀ a, r = .ok a → post a := by
  intro buffer hbuffer l b hb
  have hrun := hp buffer hbuffer l b hb
  simp only [attempt]
  rcases hx : p b with ⟨r, l'⟩
  rw [hx] at hrun
  cases r with
  | ok a b' =>
      refine ⟨hrun.1, hrun.2.1, fun a' ha => ?_⟩
      cases ha
      exact hrun.2.2
  | error e b' => exact ⟨hrun.1, hrun.2, fun a ha => nomatch ha⟩

def whileNotEmpty (step : α → ParserM ε α) : Nat → α → ParserM ε α
  | 0, acc => pure acc
  | n+1, acc => do
      if (← bare get).isEmpty then pure acc
      else whileNotEmpty step n (← step acc)

@[simp] theorem erase_whileNotEmpty (step : α → ParserM ε α) (n : Nat) (acc : α) :
    (whileNotEmpty step n acc).erase =
      ParseBuffer.whileNotEmpty (fun acc => (step acc).erase) n acc := by
  induction n generalizing acc with
  | zero => rfl
  | succ n ih =>
      simp only [whileNotEmpty, ParseBuffer.whileNotEmpty, erase_bind, erase_bare]
      refine bind_congr fun b => ?_
      split
      · rfl
      · simp only [erase_bind, ih]

theorem whileNotEmpty_bounded {limit : Nat} {step : α → ParserM ε α} {inv : α → Prop}
    (hstep : ∀ acc, inv acc → Bounded limit (step acc) inv) (n : Nat) {acc : α} (hacc : inv acc) :
    Bounded limit (whileNotEmpty step n acc) inv := by
  induction n generalizing acc with
  | zero => exact .pure hacc
  | succ n ih =>
      refine .get_bind fun b _ => ?_
      split
      · exact .pure hacc
      · exact (hstep acc hacc).bind fun _ => ih

/-- `self.pos + n <= self.buffer.len()`, then `n` bytes one by one. -/
def readDemands (n : Nat) (b : ParseBuffer) : List Demand :=
  .plus b.pos n :: if b.pos + n ≤ b.buffer.length then
    (List.range n).flatMap fun i => [.plus b.pos i, .index (b.pos + i) b.buffer.length] else []

/-- The same bound, then one slice. -/
def takeDemands (len : Nat) (b : ParseBuffer) : List Demand :=
  .plus b.pos len :: if b.pos + len ≤ b.buffer.length then
    [.slice b.pos (b.pos + len) b.buffer.length] else []

section Readers

variable {limit : Nat} {b : ParseBuffer} {n : Nat}

theorem readDemands_met (hb : 2 * b.buffer.length < limit) (hn : 2 * n < limit) :
    AllMet limit (readDemands n b) := by
  have hpos := b.pos_le
  refine allMet_cons.mpr ⟨show b.pos + n < limit by omega, ?_⟩
  split
  next hroom =>
    intro d hd
    obtain ⟨i, hi, hd⟩ := List.mem_flatMap.mp hd
    rw [List.mem_range] at hi
    have hturn : AllMet limit [.plus b.pos i, .index (b.pos + i) b.buffer.length] := by
      simp only [allMet_cons, allMet_nil, and_true, Demand.Met]
      omega
    exact hturn d hd
  next => exact allMet_nil limit

theorem takeDemands_met (hb : 2 * b.buffer.length < limit) (hn : 2 * n < limit) :
    AllMet limit (takeDemands n b) := by
  have hpos := b.pos_le
  refine allMet_cons.mpr ⟨show b.pos + n < limit by omega, ?_⟩
  split
  next hroom =>
    simp only [allMet_cons, allMet_nil, and_true, Demand.Met]
    omega
  next => exact allMet_nil limit

def readU8 : ParserM ParseError UInt8 :=
  asking (fun b => if b.pos < b.buffer.length then
    [.index b.pos b.buffer.length, .plus b.pos 1] else []) ParseBuffer.readU8

theorem readU8_bounded : Bounded limit readU8 fun _ => True := by
  refine fun buffer hbuffer => .asking fun b hb => ?_
  subst hb
  simp only [ParseBuffer.readU8]
  split
  next hroom =>
    refine ⟨?_, rfl, trivial⟩
    simp only [allMet_cons, allMet_nil, and_true, Demand.Met]
    omega
  next => exact ⟨allMet_nil limit, rfl⟩

/-- `read_u16`, `read_u24` and `read_u32`. -/
def readNumber (n : Nat) : ParserM ParseError Nat :=
  asking (readDemands n) do return fromBigEndian (← ParseBuffer.advance n)

theorem readNumber_bounded (hn : 2 * n < limit) :
    Bounded limit (readNumber n) fun a => a < 256 ^ n := by
  refine fun buffer hbuffer => .asking fun b hb => ?_
  subst hb
  refine ⟨readDemands_met hbuffer hn, ?_⟩
  by_cases hroom : b.pos + n ≤ b.buffer.length
  · have hread : ParseBuffer.advance n b =
        .ok ((b.buffer.drop b.pos).take n) ⟨b.pos + n, b.buffer, hroom⟩ := dif_pos hroom
    rw [bind_of_ok hread]
    have hlt := fromBigEndian_lt ((b.buffer.drop b.pos).take n)
    rw [List.length_take, List.length_drop, Nat.min_eq_left (by omega)] at hlt
    exact ⟨rfl, hlt⟩
  · have hread : ParseBuffer.advance n b = .error .insufficientBytes b := dif_neg hroom
    rw [bind_of_error hread]
    rfl

def readU16 : ParserM ParseError Nat := readNumber 2
def readU24 : ParserM ParseError Nat := readNumber 3
def readU32 : ParserM ParseError Nat := readNumber 4

def slice (len : Nat) : ParserM ParseError ParseBuffer := asking (takeDemands len) (ParseBuffer.slice len)

theorem slice_exact (hn : 2 * n < limit) :
    Bounded limit (slice n) fun data => data.buffer.length = n := by
  refine fun buffer hbuffer => .asking fun b hb => ?_
  subst hb
  refine ⟨takeDemands_met hbuffer hn, ?_⟩
  by_cases hroom : b.pos + n ≤ b.buffer.length
  · have hread : ParseBuffer.advance n b =
        .ok ((b.buffer.drop b.pos).take n) ⟨b.pos + n, b.buffer, hroom⟩ := dif_pos hroom
    rw [ParseBuffer.slice, bind_of_ok hread]
    refine ⟨rfl, ?_⟩
    simp only [ParseBuffer.new_buffer, List.length_take, List.length_drop]
    omega
  · have hread : ParseBuffer.advance n b = .error .insufficientBytes b := dif_neg hroom
    rw [ParseBuffer.slice, bind_of_error hread]
    rfl

theorem slice_bounded (hn : 2 * n < limit) :
    Bounded limit (slice n) fun data => 2 * data.buffer.length < limit :=
  (slice_exact hn).weaken fun _ hdata => by rwa [hdata]

/-- `dest.copy_from_slice(&self.buffer[self.pos..self.pos + dest.len()])`. -/
def fill (n : Nat) : ParserM ParseError (GenericArray n) :=
  asking (fun b => takeDemands n b ++ [.copy n n]) (ParseBuffer.fill n)

theorem fill_bounded (hn : 2 * n < limit) : Bounded limit (fill n) fun _ => True := by
  refine fun buffer hbuffer => .asking fun b hb => ?_
  subst hb
  refine ⟨allMet_append.mpr ⟨takeDemands_met hbuffer hn, by simp [Demand.Met]⟩, ?_⟩
  simp only [ParseBuffer.fill]
  split
  · exact ⟨rfl, trivial⟩
  · rfl

theorem readU16_bounded (h : 4 < limit) : Bounded limit readU16 fun a => a < 256 ^ 2 :=
  readNumber_bounded h

@[simp] theorem erase_readU8 : readU8.erase = ParseBuffer.readU8 := rfl
@[simp] theorem erase_readU16 : readU16.erase = ParseBuffer.readU16 := rfl
@[simp] theorem erase_readU24 : readU24.erase = ParseBuffer.readU24 := rfl
@[simp] theorem erase_readU32 : readU32.erase = ParseBuffer.readU32 := rfl
@[simp] theorem erase_slice (len : Nat) : (slice len).erase = ParseBuffer.slice len := rfl
@[simp] theorem erase_fill (n : Nat) : (fill n).erase = ParseBuffer.fill n := rfl

end Readers

section Lists

variable {limit N : Nat}

def pushWithin (N : Nat) (full : ε) (xs : List α) (x : α) : ParserM ε (List α) :=
  bare (ParseBuffer.pushWithin N full xs x)

theorem pushWithin_bounded {full : ε} {xs : List α} {x : α} {each : α → Prop}
    (hxs : ∀ y ∈ xs, each y) (hx : each x) :
    Bounded limit (pushWithin N full xs x) fun ys => ys.length ≤ N ∧ ∀ y ∈ ys, each y := by
  refine fun buffer _ => .bare fun b hb => ?_
  rw [ParseBuffer.pushWithin]
  split
  next hroom =>
    refine ⟨hb, by rw [List.length_append, List.length_singleton]; omega, ?_⟩
    intro y hy
    rcases List.mem_append.mp hy with hy | hy
    · exact hxs y hy
    · rw [List.mem_singleton.mp hy]
      exact hx
  next => exact hb

def readAll (N : Nat) (read : ParserM ParseError α) : ParserM ParseError (List α) := do
  let data ← bare get
  whileNotEmpty (fun xs => do pushWithin N .insufficientSpace xs (← read)) data.remaining []

def readList (N dataLength : Nat) (read : ParserM ParseError α) : ParserM ParseError (List α) := do
  let data ← slice dataLength
  within data (readAll N read)

@[simp] theorem erase_readList (N dataLength : Nat) (read : ParserM ParseError α) :
    (readList N dataLength read).erase = ParseBuffer.readList N dataLength read.erase := by
  simp only [readList, readAll, slice, pushWithin, erase_bind, erase_asking, erase_within, erase_bare,
    erase_whileNotEmpty]
  rfl

theorem readList_bounded {dataLength : Nat} {read : ParserM ParseError α}
    (hlen : 2 * dataLength < limit) (hread : Bounded limit read fun _ => True) :
    Bounded limit (readList N dataLength read) fun _ => True := by
  refine (slice_bounded hlen).bind fun data hdata => within_bounded hdata (.get_bind fun b _ => ?_)
  refine @whileNotEmpty_bounded _ _ _ _ (fun _ => True) (fun xs _ => hread.bind fun x _ => ?_) _ _ trivial
  exact (@pushWithin_bounded _ _ _ N _ xs x (fun _ => True) (fun _ _ => trivial) trivial).weaken
    fun _ _ => trivial

end Lists

end GatoPskTls.Checked
