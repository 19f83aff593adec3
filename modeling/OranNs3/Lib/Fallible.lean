import Mathlib.Data.List.Forall2

/-!
# Specifications of computations that may fail

`Spec E Q x` says how a computation `x` in `Except` can end: with a value of which `Q` holds, or
with an error of which `E` holds. The rules follow the structure of a program: sequencing
(`Spec.bind`), loops over a list with an invariant of the part that is left (`Spec.foldlM`), or of
every element (`Spec.mapM`). A specification is used in both directions: of a computation that
succeeded (`Spec.ok`) and of one that failed (`Spec.error`). `Along` says that a property holds of
all iterations of a loop.
-/

namespace Fallible

open List

universe u

variable {ε : Type*} {α β : Type u} {E E' : ε → Prop} {Q Q' : α → Prop} {R : β → Prop}
  {x : Except ε α} {f : α → Except ε β}

/-- How a computation can end. -/
def Spec (E : ε → Prop) (Q : α → Prop) : Except ε α → Prop
  | .ok a => Q a
  | .error e => E e

variable {a : α}

@[simp]
theorem spec_ok : Spec E Q (.ok a) ↔ Q a := Iff.rfl

@[simp]
theorem spec_error {e : ε} : Spec E Q (.error e : Except ε α) ↔ E e := Iff.rfl

theorem ok_bind : ((.ok a : Except ε α) >>= f) = f a := rfl

theorem Spec.ok (h : Spec E Q x) (hx : x = .ok a) : Q a := by
  subst hx
  exact h

theorem Spec.error {e : ε} (h : Spec E Q x) (hx : x = .error e) : E e := by
  subst hx
  exact h

theorem Spec.mono (h : Spec E Q x) (hE : ∀ e, E e → E' e) (hQ : ∀ a, Q a → Q' a) :
    Spec E' Q' x := by
  cases x with
  | ok a => exact hQ a h
  | error e => exact hE e h

theorem ok_of_toOption (h : x.toOption = some a) : x = .ok a := by
  cases x with
  | ok b => exact congrArg Except.ok (Option.some.inj h)
  | error e => cases h

theorem Spec.imp (h : Spec E Q x) (hQ : ∀ a, Q a → Q' a) : Spec E Q' x := h.mono (fun _ => id) hQ

theorem Spec.and (h : Spec E Q x) (h' : Spec E Q' x) : Spec E (fun a => Q a ∧ Q' a) x := by
  cases x with
  | ok a => exact ⟨h, h'⟩
  | error e => exact h

theorem Spec.also (h : Spec E Q x) (h' : ∀ a, x = .ok a → Q' a) :
    Spec E (fun a => Q a ∧ Q' a) x := by
  cases x with
  | ok a => exact ⟨h, h' a rfl⟩
  | error e => exact h

theorem Spec.bind (h : Spec E Q x) (hf : ∀ a, Q a → Spec E R (f a)) : Spec E R (x >>= f) := by
  cases x with
  | ok a => exact hf a h
  | error e => exact h

theorem Spec.map {g : α → β} (h : Spec E (fun a => R (g a)) x) : Spec E R (x.map g) := by
  cases x with
  | ok a => exact h
  | error e => exact h

variable {γ : Type*}

theorem Spec.foldlM {P : List γ → β → Prop} {f : β → γ → Except ε β} :
    ∀ {l : List γ} {b : β}, (∀ {c l b}, P (c :: l) b → Spec E (P l) (f b c)) → P l b →
      Spec E (P []) (l.foldlM f b)
  | [], _, _, h0 => h0
  | c :: l, b, hf, h0 => by
    rw [foldlM_cons]
    exact (hf h0).bind fun b' hb' => Spec.foldlM hf hb'

theorem Spec.foldlM_mem_rest {P : List γ → β → Prop} {f : β → γ → Except ε β}
    {l : List γ} {b : β} (hf : ∀ {c l' b}, c ∈ l → P (c :: l') b → Spec E (P l') (f b c))
    (h0 : P l b) : Spec E (P []) (l.foldlM f b) := by
  refine (Spec.foldlM (P := fun l' b => (∀ c ∈ l', c ∈ l) ∧ P l' b) (fun {c l' b} h => ?_)
    ⟨fun _ => id, h0⟩).imp fun _ => And.right
  obtain ⟨hc, hl'⟩ := forall_mem_cons.1 h.1
  exact (hf hc h.2).imp fun b' hb' => ⟨hl', hb'⟩

theorem Spec.foldlM_mem {P : β → Prop} {f : β → γ → Except ε β} {l : List γ} {b : β}
    (hf : ∀ {b c}, c ∈ l → P b → Spec E P (f b c)) (h0 : P b) : Spec E P (l.foldlM f b) :=
  Spec.foldlM_mem_rest (P := fun _ => P) hf h0

/-- The rule of a loop whose iterations each work on a part of the state (`p`, what `g` sees there),
which no other iteration changes. -/
theorem Spec.foldlM_parts {γ ι T : Type*} {f : β → γ → Except ε β} {p : γ → List ι} {g : β → ι → T}
    {P R : γ → (ι → T) → Prop} (hpre : ∀ {c h h'}, (∀ i ∈ p c, h' i = h i) → P c h → P c h')
    (hdone : ∀ {c h h'}, (∀ i ∈ p c, h' i = h i) → R c h → R c h') {l : List γ} {b : β}
    (hf : ∀ {b c}, c ∈ l → P c (g b) →
      Spec E (fun b' => R c (g b') ∧ ∀ i ∉ p c, g b' i = g b i) (f b c))
    (hnd : (l.flatMap p).Nodup) (h0 : ∀ c ∈ l, P c (g b)) :
    Spec E (fun b' => (∀ c ∈ l, R c (g b')) ∧ ∀ i ∉ l.flatMap p, g b' i = g b i)
      (l.foldlM f b) := by
  induction l generalizing b with
  | nil => exact ⟨nofun, fun _ _ => rfl⟩
  | cons c l ih =>
    rw [flatMap_cons, nodup_append] at hnd
    obtain ⟨_, hndl, hdisj⟩ := hnd
    obtain ⟨h0c, h0l⟩ := forall_mem_cons.1 h0
    rw [foldlM_cons]
    refine (hf mem_cons_self h0c).bind fun b' hb' => ?_
    have hl : ∀ d ∈ l, P d (g b') := by
      intro d hd
      refine hpre (fun i hi => hb'.2 i fun hic => ?_) (h0l d hd)
      exact hdisj i hic i (mem_flatMap.2 ⟨d, hd, hi⟩) rfl
    refine (ih (fun hd => hf (mem_cons_of_mem c hd)) hndl hl).imp fun b'' hb'' =>
      ⟨?_, fun i hi => ?_⟩
    · refine forall_mem_cons.2 ⟨hdone (fun i hi => ?_) hb'.1, hb''.1⟩
      exact hb''.2 i fun hil => hdisj i hi i hil rfl
    · rw [flatMap_cons, mem_append, not_or] at hi
      rw [hb''.2 i hi.2, hb'.2 i hi.1]

/-- `P` holds of every iteration of a loop that is reached: of the state before it, its element and
the state after it. -/
def Along {γ : Type*} (f : β → γ → Except ε β) (P : β → γ → β → Prop) : β → List γ → Prop
  | _, [] => True
  | b, c :: l => ∀ b', f b c = .ok b' → P b c b' ∧ Along f P b' l

theorem along_cons_of_ok {f : β → γ → Except ε β} {P : β → γ → β → Prop} {b b' : β} {c : γ}
    {l : List γ} (hf : f b c = .ok b') : Along f P b (c :: l) ↔ P b c b' ∧ Along f P b' l := by
  constructor
  · intro h
    exact h b' hf
  · intro h b'' hb''
    cases hf.symm.trans hb''
    exact h

theorem Spec.mapM {T : α → β → Prop} {f : α → Except ε β} :
    ∀ {l : List α}, (∀ a ∈ l, Spec E (T a) (f a)) → Spec E (Forall₂ T l) (l.mapM f)
  | [], _ => Forall₂.nil
  | a :: l, hf => by
    rw [mapM_cons]
    refine (hf a mem_cons_self).bind fun b hb => ?_
    refine (Spec.mapM fun c hc => hf c (mem_cons_of_mem a hc)).bind fun bs hbs => ?_
    exact Forall₂.cons hb hbs

end Fallible
