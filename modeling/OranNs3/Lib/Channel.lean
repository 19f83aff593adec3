import Mathlib.Order.Basic
import Mathlib.Data.List.Basic

/-!
# Reports in a lossy channel

One party learns more and more, and reports what it knows to another over a channel that loses
messages and keeps the order of the rest. `Ascends ok lo l hi` says that between what the receiving
party knows (`lo`) and what the sending one knows (`hi`) there is, for each message of the channel
`l`, what its sender knew when it was sent, and that this never decreases from one message to the
next. Sending (`Ascends.send`), losing (`Ascends.lose`) and learning (`Ascends.raise`,
`Ascends.lower`) keep it; a message that is received is the first one of the channel, and its
definition says what it brings.
-/

namespace Channel

variable {κ σ : Type*} [Preorder κ] {ok ok' : κ → σ → Prop} {lo lo' hi hi' : κ} {m : σ}

/-- What is known ascends from the receiving party over the messages of a channel to the sending
party; `ok k m` says that `m` reports `k`. -/
def Ascends (ok : κ → σ → Prop) : κ → List σ → κ → Prop
  | lo, [], hi => lo ≤ hi
  | lo, m :: l, hi => ∃ k, lo ≤ k ∧ ok k m ∧ Ascends ok k l hi

theorem Ascends.lower (hle : lo' ≤ lo) : ∀ {l : List σ}, Ascends ok lo l hi → Ascends ok lo' l hi
  | [], h => hle.trans h
  | _ :: _, ⟨k, hk, hm, hl⟩ => ⟨k, hle.trans hk, hm, hl⟩

theorem Ascends.raise (hle : hi ≤ hi') : ∀ {l : List σ} {lo : κ}, Ascends ok lo l hi →
    Ascends ok lo l hi'
  | [], _, h => le_trans h hle
  | _ :: _, _, ⟨k, hk, hm, hl⟩ => ⟨k, hk, hm, hl.raise hle⟩

theorem Ascends.le : ∀ {l : List σ} {lo : κ}, Ascends ok lo l hi → lo ≤ hi
  | [], _, h => h
  | _ :: _, _, ⟨_, hk, _, hl⟩ => hk.trans hl.le

theorem Ascends.send (hm : ok hi m) : ∀ {l : List σ} {lo : κ}, Ascends ok lo l hi →
    Ascends ok lo (l ++ [m]) hi
  | [], _, h => ⟨hi, h, hm, le_rfl⟩
  | _ :: _, _, ⟨k, hk, hm', hl⟩ => ⟨k, hk, hm', hl.send hm⟩

theorem Ascends.lose : ∀ {l : List σ} {i : Nat} {lo : κ}, Ascends ok lo l hi →
    Ascends ok lo (l.eraseIdx i) hi
  | [], _, _, h => h
  | _ :: _, 0, _, ⟨_, hk, _, hl⟩ => hl.lower hk
  | _ :: _, _ + 1, _, ⟨k, hk, hm, hl⟩ => ⟨k, hk, hm, hl.lose⟩

theorem Ascends.imp (hok : ∀ k m, ok k m → ok' k m) : ∀ {l : List σ} {lo : κ}, Ascends ok lo l hi →
    Ascends ok' lo l hi
  | [], _, h => h
  | _ :: _, _, ⟨k, hk, hm, hl⟩ => ⟨k, hk, hok k _ hm, hl.imp hok⟩

end Channel
