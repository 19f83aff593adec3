import Mathlib.Data.List.Basic
import Mathlib.Tactic.Ring

/-!
# Numbers on the wire

Numbers are bytes with the most significant one first (`big`) or last (`little`), and what is
written is a sequence of pieces (`Out`). A reader takes bytes from the front (`Reader`). Both may
note values on their way, such as the lengths of parts.

`Reads r bytes notes a` says that a reader takes exactly these bytes, whatever is behind them, and
returns `a`. Its rules follow the structure of a reader: sequencing (`Reads.bind`, `Reads.seq`) and
the loops over a count (`Reads.iterate`) and up to the end (`ReadsAll.untilEnd`), with an invariant
of the elements that have been read.
-/

namespace Wire

open List

variable {ε α β σ : Type}

/-! ## Numbers -/

/-- The `n` lower bytes of a number, the most significant one first. -/
def big : Nat → Nat → List Nat
  | 0, _ => []
  | n + 1, v => v / 256 ^ n % 256 :: big n v

/-- The same with the least significant one first. -/
def little : Nat → Nat → List Nat
  | 0, _ => []
  | n + 1, v => v % 256 :: little n (v / 256)

/-- The number of bytes of which the first is the most significant. -/
def ofBig (bytes : List Nat) : Nat := bytes.foldl (fun v b => v * 256 + b) 0

@[simp]
theorem length_big (n v : Nat) : (big n v).length = n := by
  induction n with
  | zero => rfl
  | succ n ih => rw [big, length_cons, ih]

theorem foldl_big (n v a : Nat) :
    (big n v).foldl (fun v b => v * 256 + b) a = a * 256 ^ n + v % 256 ^ n := by
  induction n generalizing a with
  | zero => simp [big, Nat.mod_one]
  | succ n ih =>
    have hmod : v % 256 ^ (n + 1) = v % 256 ^ n + 256 ^ n * (v / 256 ^ n % 256) := by
      rw [Nat.pow_succ, Nat.mod_mul]
    rw [big, foldl_cons, ih, hmod, Nat.pow_succ]
    ring

theorem ofBig_big (n v : Nat) : ofBig (big n v) = v % 256 ^ n := by
  rw [ofBig, foldl_big, Nat.zero_mul, Nat.zero_add]

/-! ## Writing -/

/-- What is written: bytes, and values that are noted. -/
structure Out where
  bytes : List Nat := []
  notes : List Nat := []
deriving DecidableEq

/-- Pieces one after the other. -/
def Out.seq : List Out → Out
  | [] => {}
  | o :: os => ⟨o.bytes ++ (seq os).bytes, o.notes ++ (seq os).notes⟩

/-- The number of bytes. -/
def Out.length (o : Out) : Nat := o.bytes.length

@[simp]
theorem Out.length_seq_nil : (seq []).length = 0 := rfl

@[simp]
theorem Out.length_seq_cons (o : Out) (os : List Out) :
    (seq (o :: os)).length = o.length + (seq os).length := by
  simp [Out.length, seq]

theorem Out.bytes_seq (os : List Out) : (seq os).bytes = os.flatMap (·.bytes) := by
  induction os with
  | nil => rfl
  | cons o os ih => simp [seq, ih]

theorem Out.notes_seq (os : List Out) : (seq os).notes = os.flatMap (·.notes) := by
  induction os with
  | nil => rfl
  | cons o os ih => simp [seq, ih]

theorem Out.length_seq_map {f : α → Out} {n : Nat} (xs : List α) (h : ∀ x, (f x).length = n) :
    (seq (xs.map f)).length = xs.length * n := by
  induction xs with
  | nil => simp
  | cons x xs ih => rw [map_cons, length_seq_cons, ih, h, length_cons, Nat.succ_mul, Nat.add_comm]

/-! ## Reading -/

/-- What is left to read, and what has been noted. -/
structure In where
  left : List Nat
  notes : List Nat := []
deriving DecidableEq

/-- A reader takes bytes from the front, or fails. -/
abbrev Reader (ε α : Type) : Type := StateT In (Except ε) α

variable (e : ε)

/-- The first byte. -/
def byte : Reader ε Nat := fun s =>
  match s.left with
  | [] => .error e
  | b :: left => .ok (b, { s with left })

/-- The number of the next `n` bytes, on top of a number that has been read. -/
def bigFrom (e : ε) : Nat → Nat → Reader ε Nat
  | 0, v => pure v
  | n + 1, v => byte e >>= fun b => bigFrom e n (v * 256 + b)

/-- The number of the next `n` bytes. -/
def readBig (n : Nat) : Reader ε Nat := bigFrom e n 0

/-- A value is noted. -/
def note (v : Nat) : Reader ε Unit := fun s => .ok ((), { s with notes := s.notes ++ [v] })

/-- A condition that has to hold. -/
def require (p : Prop) [Decidable p] : Reader ε Unit :=
  fun s => if p then .ok ((), s) else .error e

/-- A loop with a count. -/
def iterate : Nat → (σ → Reader ε σ) → σ → Reader ε σ
  | 0, _, s => pure s
  | n + 1, step, s => step s >>= iterate n step

/-- A loop up to the end of what is left, of at most `n` iterations. -/
def untilEndFuel (e : ε) : Nat → (σ → Reader ε σ) → σ → Reader ε σ
  | 0, _, s => fun i => if i.left = [] then .ok (s, i) else .error e
  | n + 1, step, s => fun i =>
    if i.left = [] then .ok (s, i) else (step s >>= untilEndFuel e n step) i

/-- A loop up to the end: each iteration takes at least one byte. -/
def untilEnd (step : σ → Reader ε σ) (s : σ) : Reader ε σ :=
  fun i => untilEndFuel e i.left.length step s i

/-- A reader takes exactly these bytes, whatever is behind them. -/
def Reads (r : Reader ε α) (bytes notes : List Nat) (a : α) : Prop :=
  ∀ left noted, r ⟨bytes ++ left, noted⟩ = .ok (a, ⟨left, noted ++ notes⟩)

/-- A reader takes all that is left. -/
def ReadsAll (r : Reader ε α) (bytes notes : List Nat) (a : α) : Prop :=
  ∀ noted, r ⟨bytes, noted⟩ = .ok (a, ⟨[], noted ++ notes⟩)

section rules
variable {r : Reader ε α} {f : α → Reader ε β} {bytes bytes' notes notes' : List Nat} {a : α}
  {b : β} {e : ε} {o : Out} {os : List Out}

theorem Reads.pure (a : α) : Reads (pure a : Reader ε α) [] [] a := by
  intro left noted
  rw [append_nil]
  rfl

theorem Reads.bind (h : Reads r bytes notes a) (h' : Reads (f a) bytes' notes' b) :
    Reads (r >>= f) (bytes ++ bytes') (notes ++ notes') b := by
  intro left noted
  show (r ⟨bytes ++ bytes' ++ left, noted⟩ >>= fun x => f x.1 x.2) = _
  rw [append_assoc, h]
  show f a ⟨bytes' ++ left, noted ++ notes⟩ = _
  rw [h', append_assoc]

theorem Reads.seq (h : Reads r o.bytes notes a) (h' : Reads (f a) (Out.seq os).bytes notes' b) :
    Reads (r >>= f) (Out.seq (o :: os)).bytes (notes ++ notes') b := h.bind h'

theorem Reads.last (h : Reads r o.bytes notes a) : Reads r (Out.seq [o]).bytes notes a := by
  rw [Out.bytes_seq, flatMap_singleton]
  exact h

theorem Reads.cast {a' : α} (h : Reads r bytes notes a) (hn : notes = notes') (ha : a = a') :
    Reads r bytes notes' a' := hn ▸ ha ▸ h

theorem Reads.skip (h : Reads r [] notes a) (h' : Reads (f a) bytes notes' b) :
    Reads (r >>= f) bytes (notes ++ notes') b := by
  have := h.bind h'
  rwa [nil_append] at this

theorem Reads.byte (b : Nat) : Reads (Wire.byte e) [b] [] b := by
  intro left noted
  rw [append_nil]
  rfl

theorem Reads.bigFrom {n : Nat} (v w : Nat) :
    Reads (Wire.bigFrom e n w) (big n v) [] ((big n v).foldl (fun v b => v * 256 + b) w) := by
  induction n generalizing w with
  | zero => exact Reads.pure w
  | succ n ih =>
    rw [big, foldl_cons]
    exact (Reads.byte _).bind (ih _)

theorem Reads.big {n v : Nat} (hv : v < 256 ^ n) : Reads (readBig e n) (Wire.big n v) [] v := by
  have h : Reads (readBig e n) (Wire.big n v) [] (ofBig (Wire.big n v)) := Reads.bigFrom v 0
  rwa [ofBig_big, Nat.mod_eq_of_lt hv] at h

theorem Reads.note (v : Nat) : Reads (Wire.note v : Reader ε Unit) [] [v] () := fun _ _ => rfl

theorem Reads.require {p : Prop} [Decidable p] (hp : p) : Reads (Wire.require e p) [] [] () := by
  intro left noted
  rw [Wire.require, if_pos hp, append_nil]
  rfl

variable {P : List β → σ → Prop} {xs : List β}

theorem Reads.iterate {step : σ → Reader ε σ} {f g : β → List Nat}
    (hstep : ∀ {pre x post s}, xs = pre ++ x :: post → P pre s →
      ∃ s', Reads (step s) (f x) (g x) s' ∧ P (pre ++ [x]) s') :
    ∀ (pre post : List β) {s : σ}, xs = pre ++ post → P pre s →
      ∃ s', Reads (Wire.iterate post.length step s) (post.flatMap f) (post.flatMap g) s' ∧ P xs s'
  | pre, [], s, hxs, hP => by
    rw [append_nil] at hxs
    exact ⟨s, Reads.pure s, hxs ▸ hP⟩
  | pre, x :: post, s, hxs, hP => by
    obtain ⟨s₁, hs₁, hP₁⟩ := hstep hxs hP
    obtain ⟨s', hs', hP'⟩ := Reads.iterate hstep (pre ++ [x]) post (by simpa using hxs) hP₁
    exact ⟨s', hs₁.bind hs', hP'⟩

theorem Reads.all (h : Reads r bytes notes a) : ReadsAll r bytes notes a := by
  intro noted
  have := h [] noted
  rwa [append_nil] at this

theorem ReadsAll.cast {a' : α} (h : ReadsAll r bytes notes a) (hn : notes = notes') (ha : a = a') :
    ReadsAll r bytes notes' a' := hn ▸ ha ▸ h

theorem Reads.bindAll (h : Reads r bytes notes a) (h' : ReadsAll (f a) bytes' notes' b) :
    ReadsAll (r >>= f) (bytes ++ bytes') (notes ++ notes') b := by
  intro noted
  show (r ⟨bytes ++ bytes', noted⟩ >>= fun x => f x.1 x.2) = _
  rw [h]
  show f a ⟨bytes', noted ++ notes⟩ = _
  rw [h', append_assoc]

theorem Reads.seqAll (h : Reads r o.bytes notes a)
    (h' : ReadsAll (f a) (Out.seq os).bytes notes' b) :
    ReadsAll (r >>= f) (Out.seq (o :: os)).bytes (notes ++ notes') b := h.bindAll h'

theorem ReadsAll.bindPure {f : α → β} (h : ReadsAll r bytes notes a) :
    ReadsAll (r >>= fun a => pure (f a)) bytes notes (f a) := by
  intro noted
  show (r ⟨bytes, noted⟩ >>= fun x => (pure (f x.1) : Reader ε β) x.2) = _
  rw [h]
  rfl

theorem ReadsAll.last {f : α → β} (h : ReadsAll r o.bytes notes a) :
    ReadsAll (r >>= fun a => pure (f a)) (Out.seq [o]).bytes notes (f a) := by
  rw [Out.bytes_seq, flatMap_singleton]
  exact h.bindPure

theorem ReadsAll.untilEndFuel {step : σ → Reader ε σ} {f g : β → List Nat}
    (hne : ∀ x ∈ xs, f x ≠ []) (hstep : ∀ {pre x post s}, xs = pre ++ x :: post → P pre s →
      ∃ s', Reads (step s) (f x) (g x) s' ∧ P (pre ++ [x]) s') :
    ∀ (n : Nat) (pre post : List β) {s : σ}, xs = pre ++ post → P pre s →
      (post.flatMap f).length ≤ n → ∃ s',
        ReadsAll (Wire.untilEndFuel e n step s) (post.flatMap f) (post.flatMap g) s' ∧ P xs s'
  | n, pre, [], s, hxs, hP, _ => by
    rw [append_nil] at hxs
    refine ⟨s, fun noted => ?_, hxs ▸ hP⟩
    rw [flatMap_nil, flatMap_nil, append_nil]
    cases n <;> rfl
  | n, pre, x :: post, s, hxs, hP, hn => by
    obtain ⟨s₁, hs₁, hP₁⟩ := hstep hxs hP
    have hx : f x ≠ [] := hne x (hxs ▸ mem_append_right pre mem_cons_self)
    have hlen : 0 < (f x).length := length_pos_of_ne_nil hx
    rw [flatMap_cons, length_append] at hn
    obtain ⟨n, rfl⟩ : ∃ k, n = k + 1 := ⟨n - 1, by omega⟩
    obtain ⟨s', hs', hP'⟩ := ReadsAll.untilEndFuel hne hstep n (pre ++ [x]) post
      (by simpa using hxs) hP₁ (by omega)
    have hleft : (x :: post).flatMap f ≠ [] := by simp [hx]
    exact ⟨s', fun noted => (if_neg hleft).trans (hs₁.bindAll hs' noted), hP'⟩

theorem ReadsAll.untilEnd (step : σ → Reader ε σ) {f g : β → List Nat} {s : σ}
    (hne : ∀ x ∈ xs, f x ≠ []) (hstep : ∀ {pre x post s}, xs = pre ++ x :: post → P pre s →
      ∃ s', Reads (step s) (f x) (g x) s' ∧ P (pre ++ [x]) s') (hP : P [] s) :
    ∃ s', ReadsAll (Wire.untilEnd e step s) (xs.flatMap f) (xs.flatMap g) s' ∧ P xs s' := by
  obtain ⟨s', hs', hP'⟩ := ReadsAll.untilEndFuel (e := e) hne hstep _ [] xs rfl hP le_rfl
  exact ⟨s', hs', hP'⟩

end rules

end Wire
