import Mathlib.Data.List.Induction
import OranNs3.Ipv4.Fragmentation
import OranNs3.Lib.Keyed

/-!
# Reassembly of the fragments of a packet

The fragments that `DoFragmentation` makes, also of a fragment, follow each other, have the sizes
that the MTU allows, and only the last of a whole packet has no more to come
(`doFragmentation_spec`, `Part`). They are kept in the order of their offsets.

`AddFragment` takes the flag for more fragments from each fragment that it puts at the end. A
fragment of the last fragment can come after it, with the same offset or a greater one and with the
flag set; then the packet is not complete for the source although every byte is there. It is
complete exactly where the fragment that came last, of those with the greatest offset, ends it
(`EndsLast`).
-/

namespace OranNs3.Ipv4

open List

open Tcp (createFragment slice)

variable {p P : List UInt8} {h : Ipv4Header} {a b q : Ipv4Packet} {l as : List Ipv4Packet}
  {k n m mtu size : Nat}

/-! ## Fragments -/

/-- What a fragment at a place of a packet is; `more` says whether others follow. -/
structure FragmentAt (p : List UInt8) (h : Ipv4Header) (size k : Nat) (more : Prop)
    (a : Ipv4Packet) : Prop where
  length : a.1.length ≤ size
  nonempty : a.1 = [] → p = [] ∧ ¬ more
  offset : a.2.fragmentOffset = (k + h.fragmentOffset) % 2 ^ 16
  payloadSize : a.2.payloadSize = a.1.length
  moreFragments : a.2.moreFragments = true ↔ more ∨ h.moreFragments = true
  key : a.2.key = h.key
  headerSize : a.2.headerSize = h.headerSize

/-- The bytes of a list of fragments. -/
def payload (l : List Ipv4Packet) : List UInt8 := l.flatMap Prod.fst

theorem setFragmentOffset_eq (hn : n % 8 = 0) : ∃ h', h.setFragmentOffset n = some h' ∧
    h'.fragmentOffset = n % 2 ^ 16 ∧ h'.key = h.key ∧ h'.headerSize = h.headerSize ∧
    h'.moreFragments = h.moreFragments := by
  have haligned : n % 2 ^ 16 % 8 = 0 := by omega
  rw [Ipv4Header.setFragmentOffset, dif_pos haligned]
  exact ⟨_, rfl, rfl, rfl, rfl, rfl⟩

/-- The loop of `DoFragmentation` cuts what is left of the packet. -/
theorem fragmentLoop_spec {rounds : Nat} (hsize : size % 8 = 0) (hpos : 0 < size)
    (hp : p.length < 2 ^ 16)
    (hk : k % 8 = 0) (hlt : k < p.length ∨ k = 0) (hrounds : p.length - k < rounds) :
    ∃ l, fragmentLoop p h size rounds k = some l ∧ payload l = p.drop k ∧ l ≠ [] ∧
      ∀ pre a post, l = pre ++ a :: post →
        FragmentAt p h size (k + (payload pre).length) (post ≠ []) a := by
  induction rounds generalizing k with
  | zero => exact absurd hrounds (Nat.not_lt_zero _)
  | succ rounds ih =>
    obtain ⟨h', hset, hoffset, hkey, hheader, -⟩ :=
      setFragmentOffset_eq (h := h) (n := k + h.fragmentOffset) (by
      have haligned := h.aligned
      omega)
    rw [fragmentLoop]
    by_cases hmore : p.length > k + size
    · have hcreate : createFragment p k size = some ((p.drop k).take size) := if_pos
        (le_of_lt hmore)
      obtain ⟨l, hl, hpayload, hne, hparts⟩ :=
        ih (k := k + size) (by omega) (Or.inl hmore) (by omega)
      have hlen : ((p.drop k).take size).length = size := by
        rw [length_take, length_drop]
        omega
      have hnext : (k + size) % 2 ^ 16 = k + size := Nat.mod_eq_of_lt (by omega)
      simp only [hmore, decide_true, if_true, hcreate, Option.bind_some, hset, hnext, hl,
        Option.map_some]
      refine ⟨_, rfl, ?_, cons_ne_nil _ _, fun pre a post heq => ?_⟩
      · rw [payload, flatMap_cons, ← payload, hpayload, ← drop_drop, take_append_drop]
      · cases pre with
        | nil =>
          obtain ⟨rfl, rfl⟩ := cons.inj heq
          refine ⟨le_of_eq hlen, fun hnil => ?_, hoffset, ?_, by simp [hne], hkey, hheader⟩
          · dsimp only at hnil
            rw [hnil] at hlen
            exact absurd hlen.symm (Nat.ne_of_gt hpos)
          · dsimp only
            rw [hlen, Nat.mod_eq_of_lt (by omega)]
        | cons b pre =>
          obtain ⟨rfl, hrest⟩ := cons.inj heq
          have hpart := hparts pre a post hrest
          rwa [payload, flatMap_cons, ← payload, length_append, hlen, ← add_assoc]
    · have hcreate : createFragment p k (p.length - k) = some (p.drop k) := by
        rw [createFragment, if_pos (by omega), take_of_length_le (le_of_eq length_drop)]
      simp only [hmore, decide_false, Bool.false_eq_true, if_false, hcreate, Option.bind_some, hset]
      refine ⟨_, rfl, by simp [payload], cons_ne_nil _ _, fun pre a post heq => ?_⟩
      cases pre with
      | nil =>
        obtain ⟨rfl, rfl⟩ := cons.inj heq
        refine ⟨?_, fun hnil => ?_, hoffset, ?_, by simp, hkey, hheader⟩
        · simp only [length_drop]
          omega
        · have hle := drop_eq_nil_iff.1 hnil
          exact ⟨eq_nil_of_length_eq_zero (by omega), not_not.2 rfl⟩
        · simp only [length_drop]
          exact Nat.mod_eq_of_lt (by omega)
      | cons b pre => simp at heq

theorem doFragmentation_spec (hp : p.length ≤ 65515) (hheader : h.headerSize = 20) (hmtu : 68 ≤ mtu)
    (hlt : mtu < 2 ^ 32) :
    ∃ l, doFragmentation p h mtu = some l ∧ payload l = p ∧ ∀ pre a post, l = pre ++ a :: post →
      FragmentAt p h (mtu - 20) (payload pre).length (post ≠ []) a := by
  have hsize : (mtu + 2 ^ 32 - h.headerSize) % 2 ^ 32 = mtu - 20 := by
    rw [hheader]
    omega
  obtain ⟨l, hl, hpayload, -, hparts⟩ := fragmentLoop_spec (p := p) (h := h) (k := 0)
    (show (mtu - 20) / 8 * 8 % 8 = 0 by omega) (by omega) (by omega) rfl (Or.inr rfl)
    (show p.length - 0 < p.length + 1 by omega)
  refine ⟨l, ?_, hpayload, fun pre a post heq => ?_⟩
  · rw [doFragmentation, if_pos hheader, hsize, hl]
  · have hpart := hparts pre a post heq
    rw [zero_add] at hpart
    exact { hpart with length := le_trans hpart.length (Nat.div_mul_le_self _ _) }

/-! ## Pieces -/

/-- The place after a piece. -/
def stop (a : Ipv4Packet) : Nat := a.2.fragmentOffset + a.1.length

/-- A piece has the bytes of the packet at its offset, and says whether bytes follow. -/
structure Part (P : List UInt8) (h : Ipv4Header) (a : Ipv4Packet) : Prop where
  le : stop a ≤ P.length
  bytes : a.1 = slice P (a.2.fragmentOffset, stop a)
  nonempty : a.1 = [] → P = []
  more : a.2.moreFragments = true ↔ stop a < P.length
  key : a.2.key = h.key
  headerSize : a.2.headerSize = h.headerSize

/-- The pieces of a whole packet. -/
theorem part_of_piece (hsize : P.length ≤ 65515) (hheader : h.headerSize = 20)
    (hoffset : h.fragmentOffset = 0) (hmore : h.moreFragments = false) (ha : Piece (P, h) a) :
    Part P h a := by
  induction ha with
  | packet =>
    refine ⟨by simp [stop, hoffset], ?_, id, by simp [hmore, stop, hoffset], rfl, rfl⟩
    simp [slice, stop, hoffset]
  | @fragment b c mtu l _ hmtu hlt hl hc ih =>
    have hlen : b.1.length ≤ P.length := by
      have hle := ih.le
      rw [stop] at hle
      omega
    obtain ⟨l', hl', hpayload, hparts⟩ := doFragmentation_spec (p := b.1) (h := b.2) (by omega)
      (ih.headerSize.trans hheader) hmtu hlt
    obtain rfl := Option.some.inj (hl.symm.trans hl')
    obtain ⟨pre, post, rfl⟩ := append_of_mem hc
    have hpart := hparts pre c post rfl
    have hbytes : b.1 = payload pre ++ (c.1 ++ payload post) := by
      rw [← hpayload]
      simp [payload]
    have hoff : c.2.fragmentOffset = b.2.fragmentOffset + (payload pre).length := by
      have hle := ih.le
      have hlen' := congrArg length hbytes
      simp only [stop, length_append] at hle hlen'
      rw [hpart.offset, Nat.mod_eq_of_lt (by omega), add_comm]
    have hend : stop b = stop c + (payload post).length := by
      have hlen' := congrArg length hbytes
      simp only [length_append] at hlen'
      simp only [stop, hoff]
      omega
    have hpost : post ≠ [] → 0 < (payload post).length := by
      intro hne
      cases post with
      | nil => exact absurd rfl hne
      | cons d post =>
        refine Nat.pos_of_ne_zero fun hzero => ?_
        have hd : d.1 = [] := by
          rw [payload, flatMap_cons, length_append] at hzero
          exact eq_nil_of_length_eq_zero (by omega)
        have hempty := (hparts (pre ++ [c]) d post (by simp)).nonempty hd
        rw [hempty.1] at hbytes
        exact (hpart.nonempty (by simp_all)).2 hne
    refine ⟨?_, ?_, fun hnil => ih.nonempty (hpart.nonempty hnil).1, ?_, hpart.key.trans ih.key,
      hpart.headerSize.trans ih.headerSize⟩
    · exact le_trans (by omega) ih.le
    · have hslice := Tcp.eq_slice hbytes.symm
      have hlen := congrArg length hbytes
      simp only [length_append] at hlen
      rw [ih.bytes, stop, Tcp.slice_slice (by omega), ← hoff] at hslice
      exact hslice
    · rw [hpart.moreFragments, ih.more]
      constructor
      · rintro (hne | hlt)
        · have hpos := hpost hne
          have hle := ih.le
          omega
        · omega
      · intro hlt
        by_cases hnil : post = []
        · refine Or.inr ?_
          rw [hnil] at hend
          simp only [payload, flatMap_nil, length_nil] at hend
          omega
        · exact Or.inl hnil

/-! ## Arrivals -/

/-- Of the packets that came, the one with the greatest offset that came last. -/
def Last (as : List Ipv4Packet) (a : Ipv4Packet) : Prop :=
  ∃ pre post, as = pre ++ a :: post ∧ (∀ b ∈ pre, b.2.fragmentOffset ≤ a.2.fragmentOffset) ∧
    ∀ b ∈ post, b.2.fragmentOffset < a.2.fragmentOffset

/-- That packet has no more to come. -/
def EndsLast (as : List Ipv4Packet) : Prop := ∃ a, Last as a ∧ a.2.moreFragments = false

theorem Last.unique (ha : Last as a) (hb : Last as b) : a = b := by
  obtain ⟨pre, post, rfl, hpre, hpost⟩ := ha
  obtain ⟨pre', post', heq, hpre', hpost'⟩ := hb
  rcases append_eq_append_iff.1 heq with ⟨mid, rfl, hmid⟩ | ⟨mid, rfl, hmid⟩
  · cases mid with
    | nil => exact (cons.inj hmid).1
    | cons c mid =>
      -- `a` comes before `b`
      obtain ⟨rfl, rfl⟩ := cons.inj hmid
      have hle := hpre' a (by simp)
      have hlt := hpost b (by simp)
      omega
  · cases mid with
    | nil => exact (cons.inj hmid).1.symm
    | cons c mid =>
      obtain ⟨rfl, rfl⟩ := cons.inj hmid
      have hle := hpre b (by simp)
      have hlt := hpost' a (by simp)
      omega

theorem Last.snoc (ha : Last as a) (b : Ipv4Packet) :
    Last (as ++ [b]) (if b.2.fragmentOffset < a.2.fragmentOffset then a else b) := by
  obtain ⟨pre, post, rfl, hpre, hpost⟩ := ha
  split
  · next hlt =>
    refine ⟨pre, post ++ [b], by simp, hpre, fun c hc => ?_⟩
    rcases mem_append.1 hc with hc | hc
    · exact hpost c hc
    · rwa [mem_singleton.1 hc]
  · next hle =>
    refine ⟨pre ++ a :: post, [], rfl, fun c hc => ?_, nofun⟩
    rcases mem_append.1 hc with hc | hc
    · have hca := hpre c hc
      omega
    · rcases mem_cons.1 hc with rfl | hc
      · omega
      · have hca := hpost c hc
        omega

/-- An entry of the list of fragments. -/
def entry (a : Ipv4Packet) : List UInt8 × Nat := (a.1, a.2.fragmentOffset)

/-- What the list of fragments is after some arrivals: the arrivals in the order of their offsets,
with the flag of the last one of those with the greatest offset. -/
structure Kept (as : List Ipv4Packet) (f : Fragments) : Prop where
  mem : ∀ e, e ∈ f.fragments ↔ e ∈ as.map entry
  sorted : f.fragments.Pairwise (·.2 ≤ ·.2)
  more : ∀ a, Last as a → f.moreFragment = a.2.moreFragments

theorem Kept.new : Kept [] .new where
  mem := by simp [Fragments.new]
  sorted := .nil
  more := by
    rintro a ⟨pre, post, heq, -⟩
    simp at heq

theorem Last.le (ha : Last as a) (hb : b ∈ as) : b.2.fragmentOffset ≤ a.2.fragmentOffset := by
  obtain ⟨pre, post, rfl, hpre, hpost⟩ := ha
  rcases mem_append.1 hb with hb | hb
  · exact hpre b hb
  · rcases mem_cons.1 hb with rfl | hb
    · exact le_refl _
    · exact le_of_lt (hpost b hb)

theorem Last.mem (ha : Last as a) : a ∈ as := by
  obtain ⟨pre, post, rfl, -⟩ := ha
  simp

theorem exists_last (has : as ≠ []) : ∃ a, Last as a := by
  induction as using reverseRecOn with
  | nil => exact absurd rfl has
  | append_singleton as b ih =>
    by_cases hnil : as = []
    · subst hnil
      exact ⟨b, [], [], rfl, nofun, nofun⟩
    · obtain ⟨a, ha⟩ := ih hnil
      exact ⟨_, ha.snoc b⟩

variable {f : Fragments}

theorem mem_addFragment {e : List UInt8 × Nat} {more : Bool} :
    e ∈ (f.addFragment p n more).fragments ↔ e = (p, n) ∨ e ∈ f.fragments :=
  @Keyed.mem_insertBehind Nat (List UInt8 × Nat) _ Prod.snd f.fragments (p, n) e

theorem sorted_addFragment (hf : f.fragments.Pairwise (·.2 ≤ ·.2)) (p : List UInt8) (n : Nat)
    (more : Bool) : (f.addFragment p n more).fragments.Pairwise (·.2 ≤ ·.2) :=
  @Keyed.sorted_insertBehind Nat (List UInt8 × Nat) _ Prod.snd f.fragments (p, n) hf

theorem Kept.addFragment (hf : Kept as f) (b : Ipv4Packet) :
    Kept (as ++ [b]) (f.addFragment b.1 b.2.fragmentOffset b.2.moreFragments) := by
  refine ⟨fun e => ?_, sorted_addFragment hf.sorted _ _ _, fun a ha => ?_⟩
  · rw [mem_addFragment, hf.mem, map_append, mem_append, map_singleton, mem_singleton]
    exact Or.comm
  · -- the flag is set where no offset is greater
    have hrest : f.fragments.dropWhile (·.2 ≤ b.2.fragmentOffset) = [] ↔
        ∀ c ∈ as, c.2.fragmentOffset ≤ b.2.fragmentOffset := by
      rw [dropWhile_eq_nil_iff]
      simp only [hf.mem, mem_map, decide_eq_true_eq, forall_exists_index, and_imp,
        forall_apply_eq_imp_iff₂, entry]
    rw [Fragments.addFragment]
    dsimp only
    simp only [hrest]
    by_cases has : as = []
    · subst has
      rw [if_pos nofun]
      exact congrArg (fun a : Ipv4Packet => a.2.moreFragments)
        (ha.unique ⟨[], [], rfl, nofun, nofun⟩).symm
    · obtain ⟨c, hc⟩ := exists_last has
      have heq := ha.unique (hc.snoc b)
      split
      · next hall =>
        rw [if_neg (Nat.not_lt.2 (hall c hc.mem))] at heq
        rw [heq]
      · next hnot =>
        have hlt : b.2.fragmentOffset < c.2.fragmentOffset := by
          refine Nat.lt_of_not_le fun hle => hnot fun d hd => ?_
          exact le_trans (hc.le hd) hle
        rw [if_pos hlt] at heq
        rw [heq]
        exact hf.more c hc

/-! ## Completion -/

section
variable {l : List (List UInt8 × Nat)} {e : List UInt8 × Nat} {last : Nat}

/-- An entry has the bytes of the packet at its offset. -/
def EntryOf (P : List UInt8) (e : List UInt8 × Nat) : Prop :=
  e.2 + e.1.length ≤ P.length ∧ e.1 = slice P (e.2, e.2 + e.1.length)

theorem noGap_covers (hP : P.length < 2 ^ 16) (hl : ∀ e ∈ l, EntryOf P e)
    (h : Fragments.noGap last l = true) (he : e ∈ l) {x : Nat} (hx : last ≤ x)
    (hxe : x < e.2 + e.1.length) : ∃ d ∈ l, d.2 ≤ x ∧ x < d.2 + d.1.length := by
  induction l generalizing last with
  | nil => exact absurd he not_mem_nil
  | cons d l ih =>
    obtain ⟨hd, hl⟩ := forall_mem_cons.1 hl
    have hle := hd.1
    rw [Fragments.noGap, Nat.mod_eq_of_lt (by omega)] at h
    split at h <;> [cases h; skip]
    by_cases hxd : x < d.2 + d.1.length
    · exact ⟨d, mem_cons_self, by omega, hxd⟩
    · rcases mem_cons.1 he with rfl | he
      · exact absurd hxe hxd
      · obtain ⟨c, hc, hcx⟩ := ih hl h he (by omega)
        exact ⟨c, mem_cons_of_mem _ hc, hcx⟩

theorem noGap_of_covers (hP : P.length < 2 ^ 16) (hl : ∀ e ∈ l, EntryOf P e)
    (hsorted : l.Pairwise (·.2 ≤ ·.2))
    (hcov : ∀ x, last ≤ x → x < P.length → ∃ d ∈ l, d.2 ≤ x ∧ x < d.2 + d.1.length) :
    Fragments.noGap last l = true := by
  induction l generalizing last with
  | nil => rfl
  | cons d l ih =>
    obtain ⟨hd, hl⟩ := forall_mem_cons.1 hl
    obtain ⟨hfirst, hsorted⟩ := pairwise_cons.1 hsorted
    have hle := hd.1
    rw [Fragments.noGap, Nat.mod_eq_of_lt (by omega), if_neg]
    · refine ih hl hsorted fun x hx hxP => ?_
      obtain ⟨c, hc, hcx⟩ := hcov x (by omega) hxP
      rcases mem_cons.1 hc with rfl | hc
      · omega
      · exact ⟨c, hc, hcx⟩
    · intro hlt
      obtain ⟨c, hc, hcx⟩ := hcov last (le_refl _) (by omega)
      rcases mem_cons.1 hc with rfl | hc
      · omega
      · have hdc := hfirst c hc
        omega

theorem take_append_slice (hmn : m ≤ n) : P.take m ++ slice P (m, n) = P.take n := by
  have htake : ∀ k, P.take k = slice P (0, k) := fun k => by simp [slice]
  rw [htake m, htake n, Tcp.slice_append (Nat.zero_le m) hmn]

/-- What is collected where there is no gap are the first bytes of the packet, up to the last end.
-/
theorem collect_eq (hP : P.length < 2 ^ 16) (hl : ∀ e ∈ l, EntryOf P e)
    (h : Fragments.noGap last l = true) (hlast : last ≤ P.length) :
    ∃ n, Fragments.collect (P.take last) l = some (P.take n) ∧ last ≤ n ∧
      ∀ e ∈ l, e.2 + e.1.length ≤ n := by
  induction l generalizing last with
  | nil => exact ⟨last, rfl, le_refl _, nofun⟩
  | cons d l ih =>
    obtain ⟨hd, hl⟩ := forall_mem_cons.1 hl
    obtain ⟨hle, hbytes⟩ := hd
    rw [Fragments.noGap, Nat.mod_eq_of_lt (by omega)] at h
    split at h <;> [cases h; skip]
    next hgap =>
    obtain ⟨n, hcollect, hn, hall⟩ := ih hl h (by omega)
    refine ⟨n, ?_, by omega, forall_mem_cons.2 ⟨by omega, hall⟩⟩
    have hlen : (P.take last).length = last := by
      rw [length_take]
      omega
    rw [Fragments.collect, hlen, Nat.mod_eq_of_lt (by omega)]
    dsimp only
    split
    · next hover =>
      split
      · next hlong =>
        -- the part after what was collected is added
        have hcreate : createFragment d.1 (last - d.2) (d.1.length - (last - d.2)) =
            some (slice P (last, d.2 + d.1.length)) := by
          have hslice := Tcp.createFragment_slice hle (show d.2 ≤ last by omega)
            (show last ≤ d.2 + d.1.length by omega) (le_refl _)
          rw [← hbytes] at hslice
          rwa [show d.1.length - (last - d.2) = d.2 + d.1.length - last by omega]
        have hmax : max last (d.1.length + d.2) = d.2 + d.1.length := by omega
        rw [hmax] at hcollect
        rw [hcreate, Option.bind_some, take_append_slice (by omega), hcollect]
      · next hshort =>
        have hmax : max last (d.1.length + d.2) = last := by omega
        rwa [hmax] at hcollect
    · next hover =>
      have heq : last = d.2 := by omega
      have hmax : max last (d.1.length + d.2) = d.2 + d.1.length := by omega
      rw [hmax] at hcollect
      rw [heq, hbytes, take_append_slice (by omega), hcollect]

end

/-! ## Runs -/

/-- A packet came, and each byte did. -/
def Present (P : List UInt8) (as : List Ipv4Packet) : Prop :=
  as ≠ [] ∧ ∀ x < P.length, ∃ a ∈ as, a.2.fragmentOffset ≤ x ∧ x < stop a

theorem Kept.entryOf (hf : Kept as f) (has : ∀ a ∈ as, Part P h a) : ∀ e ∈ f.fragments,
    EntryOf P e := by
  intro e he
  obtain ⟨a, ha, rfl⟩ := mem_map.1 ((hf.mem e).1 he)
  exact ⟨(has a ha).le, (has a ha).bytes⟩

/-- The packet is complete for the source where it is, and the fragment that came last of those with
the greatest offset ends it. -/
theorem Kept.isEntire (hf : Kept as f) (hP : P.length ≤ 65515) (has : ∀ a ∈ as, Part P h a) :
    f.isEntire = true ↔ Present P as ∧ EndsLast as := by
  have hentry := hf.entryOf has
  have hcover : ∀ x, (∃ e ∈ f.fragments, e.2 ≤ x ∧ x < e.2 + e.1.length) ↔
      ∃ a ∈ as, a.2.fragmentOffset ≤ x ∧ x < stop a := by
    intro x
    constructor
    · rintro ⟨e, he, hx⟩
      obtain ⟨a, ha, rfl⟩ := mem_map.1 ((hf.mem e).1 he)
      exact ⟨a, ha, hx⟩
    · rintro ⟨a, ha, hx⟩
      exact ⟨entry a, (hf.mem _).2 (mem_map_of_mem ha), hx⟩
  have hempty : f.fragments.isEmpty = false ↔ as ≠ [] := by
    rw [isEmpty_eq_false_iff_exists_mem]
    constructor
    · rintro ⟨e, he⟩ rfl
      exact absurd ((hf.mem e).1 he) not_mem_nil
    · intro hne
      obtain ⟨a, ha⟩ := exists_mem_of_ne_nil as hne
      exact ⟨entry a, (hf.mem _).2 (mem_map_of_mem ha)⟩
  simp only [Fragments.isEntire, Bool.and_eq_true, Bool.not_eq_true', hempty]
  constructor
  · rintro ⟨⟨hmore, hne⟩, hgap⟩
    obtain ⟨a, ha⟩ := exists_last hne
    have hlast : a.2.moreFragments = false := (hf.more a ha).symm.trans hmore
    refine ⟨⟨hne, fun x hx => ?_⟩, a, ha, hlast⟩
    -- the last fragment ends the packet
    have hend : stop a = P.length := by
      have hpart := has a ha.mem
      have hnot : ¬ stop a < P.length := fun hlt => by simp [hpart.more.2 hlt] at hlast
      have hle := hpart.le
      omega
    refine (hcover x).1
      (noGap_covers (by omega) hentry hgap ((hf.mem (entry a)).2 (mem_map_of_mem ha.mem))
      (Nat.zero_le x) ?_)
    exact Nat.lt_of_lt_of_eq hx hend.symm
  · rintro ⟨⟨hne, hall⟩, a, ha, hlast⟩
    refine ⟨⟨(hf.more a ha).trans hlast, hne⟩, ?_⟩
    exact noGap_of_covers (by omega) hentry hf.sorted fun x _ hx => (hcover x).2 (hall x hx)

/-- A complete packet is what is collected. -/
theorem Kept.getPacket (hf : Kept as f) (hP : P.length ≤ 65515) (has : ∀ a ∈ as, Part P h a)
    (hentire : f.isEntire = true) : f.getPacket = some P := by
  obtain ⟨⟨hne, -⟩, a, ha, hlast⟩ := (hf.isEntire hP has).1 hentire
  have hentry := hf.entryOf has
  have hmem : entry a ∈ f.fragments := (hf.mem _).2 (mem_map_of_mem ha.mem)
  have hend : P.length ≤ stop a := by
    refine Nat.le_of_not_lt fun hlt => ?_
    simp [(has a ha.mem).more.2 hlt] at hlast
  simp only [Fragments.isEntire, Bool.and_eq_true] at hentire
  rw [Fragments.getPacket]
  cases hlist : f.fragments with
  | nil => simp [hlist] at hmem
  | cons e l =>
    have hgap := hentire.2
    rw [hlist] at hgap hentry hmem
    obtain ⟨he, hl⟩ := forall_mem_cons.1 hentry
    obtain ⟨hle, hbytes⟩ := he
    rw [Fragments.noGap, Nat.mod_eq_of_lt (by omega)] at hgap
    split at hgap <;> [cases hgap; skip]
    next hfirst =>
    have hzero : e.2 = 0 := by omega
    rw [hzero, Nat.add_zero, Nat.max_eq_right (Nat.zero_le _)] at hgap
    rw [hzero, zero_add] at hbytes
    obtain ⟨n, hcollect, hn, hall⟩ := collect_eq (by omega) hl hgap (by omega)
    have htake : P.take e.1.length = e.1 := by
      conv => rhs; rw [hbytes]
      simp [slice]
    have hPn : P.length ≤ n := by
      rcases mem_cons.1 hmem with heq | hmem
      · rw [← heq] at hn hzero
        simp only [stop, entry] at hend hn hzero
        omega
      · have hle := hall _ hmem
        simp only [stop, entry] at hend hle
        omega
    rw [htake, take_of_length_le hPn] at hcollect
    exact hcollect

variable {m' : FragmentMap}

/-- What the map has for the key of the packet, when it is not complete. -/
def KeptAt (m : FragmentMap) (h : Ipv4Header) (as : List Ipv4Packet) : Prop :=
  Kept as ((m h.key).getD .new)

theorem KeptAt.processFragment {m : FragmentMap} (hm : KeptAt m h as) (hP : P.length ≤ 65515)
    (has : ∀ a ∈ as ++ [b], Part P h a) :
    (¬ (Present P (as ++ [b]) ∧ EndsLast (as ++ [b])) →
      ∃ m', processFragment m b = some (m', none) ∧ KeptAt m' h (as ++ [b])) ∧
    (Present P (as ++ [b]) ∧ EndsLast (as ++ [b]) →
      ∃ m', processFragment m b = some (m', some P)) := by
  have hkey : b.2.key = h.key := (has b (by simp)).key
  have hkept := Kept.addFragment hm b
  have hiff := hkept.isEntire hP has
  rw [Ipv4.processFragment, hkey]
  constructor
  · intro hnot
    rw [if_neg (hiff.not.2 hnot)]
    refine ⟨_, rfl, ?_⟩
    rwa [KeptAt, Function.update_self]
  · intro hall
    rw [if_pos (hiff.2 hall), hkept.getPacket hP has (hiff.2 hall)]
    exact ⟨_, rfl⟩

theorem Present.append (has : Present P as) (l : List Ipv4Packet) : Present P (as ++ l) := by
  refine ⟨by simp [has.1], fun x hx => ?_⟩
  obtain ⟨a, ha, hax⟩ := has.2 x hx
  exact ⟨a, mem_append_left l ha, hax⟩

theorem KeptAt.outputs {m : FragmentMap} (hm : KeptAt m h as) (hP : P.length ≤ 65515)
    (has : ∀ a ∈ as ++ l, Part P h a) (hnot : ¬ Present P (as ++ l)) :
    ∃ m', Lts.outputs Ipv4.processFragment m l = some (m', l.map fun _ => none) ∧
      KeptAt m' h (as ++ l) := by
  induction l generalizing as m with
  | nil => exact ⟨m, rfl, by rwa [append_nil]⟩
  | cons b l ih =>
    have happend : as ++ b :: l = as ++ [b] ++ l := by simp
    rw [happend] at has hnot
    have hnot' : ¬ (Present P (as ++ [b]) ∧ EndsLast (as ++ [b])) :=
      fun hall => hnot (hall.1.append l)
    obtain ⟨m₁, hprocess, hm₁⟩ :=
      (hm.processFragment hP fun a ha => has a (mem_append_left l ha)).1 hnot'
    obtain ⟨m', houtputs, hm'⟩ := ih hm₁ has hnot
    exact ⟨m', by simp [Lts.outputs, hprocess, houtputs], happend ▸ hm'⟩

/-! ## One way through the network -/

/-- The fragments of a packet that arrive where each piece is either kept or cut, and not both. -/
inductive Leaves (a : Ipv4Packet) : List Ipv4Packet → Prop
  | packet : Leaves a [a]
  | fragment {pre post l : List Ipv4Packet} {b : Ipv4Packet} {mtu : Nat}
      (hb : Leaves a (pre ++ b :: post)) (hmtu : 68 ≤ mtu) (hlt : mtu < 2 ^ 32)
      (hl : doFragmentation b.1 b.2 mtu = some l) : Leaves a (pre ++ l ++ post)

/-- Packets that follow each other from a place to another. -/
def Follow : Nat → List Ipv4Packet → Nat → Prop
  | k, [], n => k = n
  | k, a :: l, n => a.2.fragmentOffset = k ∧ Follow (stop a) l n

theorem follow_append {l' : List Ipv4Packet} : Follow k (l ++ l') n ↔ ∃ m, Follow k l m ∧
    Follow m l' n := by
  induction l generalizing k with
  | nil => simp [Follow]
  | cons a l ih => simp [Follow, ih, and_assoc]

theorem follow_of_offsets
    (hl : ∀ pre a post, l = pre ++ a :: post → a.2.fragmentOffset = k + (payload pre).length) :
    Follow k l (k + (payload l).length) := by
  induction l generalizing k with
  | nil => exact rfl
  | cons a l ih =>
    have ha : a.2.fragmentOffset = k := hl [] a l rfl
    refine ⟨ha, ?_⟩
    have hrest := ih (k := stop a) fun pre b post heq => by
      have hoffset := hl (a :: pre) b post (by rw [heq, cons_append])
      simp only [payload, flatMap_cons, length_append] at hoffset ⊢
      rw [hoffset, stop, ha, add_assoc]
    have hstop : stop a + (payload l).length = k + (payload (a :: l)).length := by
      simp only [payload, flatMap_cons, length_append]
      rw [stop, ha, add_assoc]
    rwa [hstop] at hrest

theorem Follow.apart (h : Follow k l n) : (∀ a ∈ l, k ≤ a.2.fragmentOffset) ∧
    ∀ a ∈ l, ∀ b ∈ l, a = b ∨ stop a ≤ b.2.fragmentOffset ∨ stop b ≤ a.2.fragmentOffset := by
  induction l generalizing k with
  | nil => exact ⟨nofun, nofun⟩
  | cons c l ih =>
    obtain ⟨hc, hl⟩ := h
    obtain ⟨hge, hapart⟩ := ih hl
    have hstop : k ≤ stop c := by
      rw [stop]
      omega
    refine ⟨forall_mem_cons.2 ⟨le_of_eq hc.symm, fun a ha => le_trans hstop (hge a ha)⟩, ?_⟩
    intro a ha b hb
    rcases mem_cons.1 ha with hac | hal <;> rcases mem_cons.1 hb with hbc | hbl
    · exact Or.inl (hac.trans hbc.symm)
    · exact Or.inr (Or.inl (hac ▸ hge b hbl))
    · exact Or.inr (Or.inr (hbc ▸ hge a hal))
    · exact hapart a hal b hbl

theorem Leaves.follow {h : Ipv4Header} (hl : Leaves (P, h) l) (hP : P.length ≤ 65515)
    (hheader : h.headerSize = 20) (hoffset : h.fragmentOffset = 0)
    (hmore : h.moreFragments = false) : (∀ a ∈ l, Piece (P, h) a) ∧ Follow 0 l P.length := by
  induction hl with
  | packet => exact ⟨fun a ha => mem_singleton.1 ha ▸ .packet,
      hoffset, by simp [Follow, stop, hoffset]⟩
  | @fragment pre post l b mtu _ hmtu hlt hl ih =>
    obtain ⟨hpieces, hfollow⟩ := ih
    have hb : Piece (P, h) b := hpieces b (by simp)
    have hpart := part_of_piece hP hheader hoffset hmore hb
    have hle := hpart.le
    obtain ⟨l', hl', hpayload, hparts⟩ := doFragmentation_spec (p := b.1) (h := b.2)
      (by rw [stop] at hle; omega) (hpart.headerSize.trans hheader) hmtu hlt
    obtain rfl := Option.some.inj (hl.symm.trans hl')
    refine ⟨fun a ha => ?_, ?_⟩
    · rcases mem_append.1 ha with ha | ha
      · rcases mem_append.1 ha with ha | ha
        · exact hpieces a (by simp [ha])
        · exact .fragment hb hmtu hlt hl ha
      · exact hpieces a (by simp [ha])
    · obtain ⟨m, hpre, hmb, hpost⟩ := follow_append.1 hfollow
      have hcut : Follow m l (stop b) := by
        rw [stop, hmb, ← hpayload]
        refine follow_of_offsets fun pre c post heq => ?_
        have hlen := congrArg length hpayload
        rw [heq] at hlen
        simp only [payload, flatMap_append, flatMap_cons, length_append] at hlen
        rw [(hparts pre c post heq).offset, hmb, add_comm, Nat.mod_eq_of_lt]
        simp only [stop, hmb, payload] at hle ⊢
        omega
      exact follow_append.2 ⟨stop b, follow_append.2 ⟨m, hpre, hcut⟩, hpost⟩

theorem Leaves.endsLast {h : Ipv4Header} (hl : Leaves (P, h) l) (hP : P.length ≤ 65515)
    (hheader : h.headerSize = 20) (hoffset : h.fragmentOffset = 0) (hmore : h.moreFragments = false)
    (has : ∀ a ∈ as, a ∈ l) (hpresent : Present P as) : EndsLast as := by
  obtain ⟨hpieces, hfollow⟩ := hl.follow hP hheader hoffset hmore
  have hpart : ∀ a ∈ as, Part P h a :=
    fun a ha => part_of_piece hP hheader hoffset hmore (hpieces a (has a ha))
  obtain ⟨a, ha⟩ := exists_last hpresent.1
  have hparta := hpart a ha.mem
  refine ⟨a, ha, Bool.eq_false_iff.2 fun hamore => ?_⟩
  have hlt := hparta.more.1 hamore
  -- the last byte is in a piece that ends the packet, and begins before `a` does
  obtain ⟨b, hb, hbx, hxb⟩ := hpresent.2 (P.length - 1) (by omega)
  have hend := (hpart b hb).le
  have hle := ha.le hb
  have hpos : 0 < a.1.length := by
    refine length_pos_of_ne_nil fun hnil => ?_
    simp [hparta.nonempty hnil] at hlt
  rcases hfollow.apart.2 a (has a ha.mem) b (has b hb) with rfl | hab | hba
  · omega
  · rw [stop] at hab
    omega
  · rw [stop] at hlt
    omega

/-! ## Examples -/

/-- A packet of 108 bytes. -/
def sample : Ipv4Packet :=
  (List.replicate 56 1 ++ List.replicate 52 2, ⟨0x0a000001, 0x0a000002, 7, 17, false, 0, 108, 20,
    rfl⟩)

/-- Its fragments for an MTU of 76. -/
def sampleFragments : List Ipv4Packet :=
  [(List.replicate 56 1, { sample.2 with
    moreFragments := true, payloadSize := 56, aligned := rfl }),
      (List.replicate 52 2, { sample.2 with
      fragmentOffset := 56, payloadSize := 52, aligned := rfl })]

/-- The fragments of the second of them for an MTU of 68. -/
def sampleParts : List Ipv4Packet :=
  [(List.replicate 48 2, { sample.2 with
      fragmentOffset := 56, moreFragments := true, payloadSize := 48, aligned := rfl }),
    (List.replicate 4 2, { sample.2 with fragmentOffset := 104, payloadSize := 4, aligned := rfl })]

theorem piece_sample : (∀ a ∈ sampleFragments, Piece sample a) ∧ ∀ a ∈ sampleParts,
    Piece sample a := by
  have hcut : doFragmentation sample.1 sample.2 76 = some sampleFragments := by decide +kernel
  have hcut' : doFragmentation sampleFragments[1].1 sampleFragments[1].2 68 = some sampleParts := by
    decide +kernel
  have hfirst : ∀ a ∈ sampleFragments, Piece sample a := fun a ha =>
    .fragment .packet (by decide) (by decide) hcut ha
  exact ⟨hfirst, fun a ha => .fragment (hfirst _ (getElem_mem _)) (by decide) (by decide) hcut' ha⟩

instance (P : List UInt8) (as : List Ipv4Packet) : Decidable (Present P as) :=
  inferInstanceAs (Decidable (_ ∧ _))

/-! ## The main result -/

/-- `DoFragmentation` cuts every packet, also one that is a fragment, into fragments that fit. The
pieces of a whole packet, in any order and any number: no call reports the packet before every byte
is there, and the call after which every byte is there reports it exactly where the piece that came
last, of those with the greatest offset, ends it. -/
theorem fragments_reassemble {P : List UInt8} {h : Ipv4Header} (hP : P.length ≤ 65515)
    (hheader : h.headerSize = 20) :
    (∀ mtu, 68 ≤ mtu → mtu < 2 ^ 32 → ∃ l, doFragmentation P h mtu = some l ∧ l.flatMap (·.1) = P ∧
      ∀ pre a post, l = pre ++ a :: post →
        20 + a.1.length ≤ mtu ∧ a.2.fragmentOffset % 8 = 0 ∧
        a.2.fragmentOffset = (h.fragmentOffset + (pre.flatMap (·.1)).length) % 2 ^ 16 ∧
        a.2.payloadSize = a.1.length ∧
          (a.2.moreFragments = true ↔ post ≠ [] ∨ h.moreFragments = true)) ∧
    (h.fragmentOffset = 0 → h.moreFragments = false →
      ∀ (m : FragmentMap) (as : List Ipv4Packet) (b : Ipv4Packet), m h.key = none →
        (∀ a ∈ as ++ [b], Piece (P, h) a) → ¬ Present P as →
      ∃ m', Lts.outputs processFragment m as = some (m', as.map fun _ => none) ∧
        (Present P (as ++ [b]) →
          ((∃ m'', processFragment m' b = some (m'', some P)) ↔ EndsLast (as ++ [b])))) := by
  constructor
  · intro mtu hmtu hlt
    obtain ⟨l, hl, hpayload, hparts⟩ := doFragmentation_spec (h := h) hP hheader hmtu hlt
    refine ⟨l, hl, hpayload, fun pre a post heq => ?_⟩
    have hpart := hparts pre a post heq
    have hlength := hpart.length
    have hoffset := hpart.offset
    rw [add_comm, payload] at hoffset
    exact ⟨by omega, a.2.aligned, hoffset, hpart.payloadSize, hpart.moreFragments⟩
  · intro hoffset hmore m as b hm has hnot
    have hpart : ∀ a ∈ as ++ [b], Part P h a :=
      fun a ha => part_of_piece hP hheader hoffset hmore (has a ha)
    have hkept : KeptAt m h [] := by
      rw [KeptAt, hm]
      exact .new
    obtain ⟨m', houtputs, hm'⟩ := hkept.outputs hP (fun a ha => hpart a (mem_append_left _ ha)) hnot
    refine ⟨m', houtputs, fun hpresent => ?_⟩
    obtain ⟨hincomplete, hcomplete⟩ := hm'.processFragment hP hpart
    refine ⟨fun ⟨m'', hprocess⟩ => ?_, fun hends => hcomplete ⟨hpresent, hends⟩⟩
    refine by_contra fun hends => ?_
    obtain ⟨m₁, hnone, -⟩ := hincomplete fun hall => hends hall.2
    have heq := hprocess.symm.trans hnone
    simp at heq

/-- The fragments in another order, one of them twice. -/
theorem fragments_reassemble_example : ∃ m m', Lts.outputs processFragment (fun _ => none)
      [sampleParts[1], sampleFragments[0], sampleParts[1]] = some (m, [none, none, none]) ∧
    processFragment m sampleParts[0] = some (m', some sample.1) := by
  obtain ⟨-, hall⟩ := fragments_reassemble (P := sample.1) (h := sample.2) (by decide +kernel) rfl
  obtain ⟨m, houtputs, hiff⟩ := hall rfl rfl (fun _ => none) [sampleParts[1], sampleFragments[0],
    sampleParts[1]] sampleParts[0] rfl (by simp [piece_sample.1, piece_sample.2])
    (by decide +kernel)
  have hends :
    EndsLast ([sampleParts[1], sampleFragments[0], sampleParts[1]] ++ [sampleParts[0]]) :=
    ⟨sampleParts[1], ⟨[sampleParts[1], sampleFragments[0]], [sampleParts[0]],
      rfl, by decide, by decide⟩, rfl⟩
  obtain ⟨m', hprocess⟩ := (hiff (by decide +kernel)).2 hends
  exact ⟨m, m', houtputs, hprocess⟩

/-- The last fragment, a part of it, and the first fragment: every byte is there, and the packet is
not reported. -/
theorem part_of_last_fails :
    (∀ a ∈ [sampleFragments[1], sampleParts[0], sampleFragments[0]], Piece sample a) ∧
    ¬ Present sample.1 [sampleFragments[1], sampleParts[0]] ∧
    Present sample.1 [sampleFragments[1], sampleParts[0], sampleFragments[0]] ∧
    (Lts.outputs processFragment (fun _ => none) [sampleFragments[1], sampleParts[0],
      sampleFragments[0]]).map (·.2) = some [none, none, none] := by
  refine ⟨by simp [piece_sample.1, piece_sample.2], by decide +kernel, by decide +kernel, by
    decide +kernel⟩

end OranNs3.Ipv4
