import OranNs3.CoDel.Law

/-!
# Dequeues of CoDel

`CoDelQueueDisc` (`codel-queue-disc.cc`) over a clock. The clock of the code counts units of 1024
nanoseconds in 32 bits and compares the counts as numbers; the unbounded clock does not wrap. What
the code keeps are the times of the latter, cut to 32 bits (`Same`). On both the algorithm does the
same, and uses no null item, as long as a deadline that is compared with the time lies in the same
turn of the clock, the last item of the queue is not to be dropped (it never is with `MinBytes`
set), and a dropping state that is entered with the number of drops of the last one does not find
the next drop of that one ahead (`agrees_of_run`). The drop loop goes along the queue, so it ends.
-/

namespace OranNs3.CoDel

open Option

/-! ## Clocks -/

/-- What the algorithm does with times. -/
structure Clock (τ : Type) where
  zero : τ
  /-- `Time2CoDel` and `CoDelGetTime`, of nanoseconds. -/
  ofNs : Nat → τ
  add : τ → τ → τ
  sub : τ → τ → τ
  /-- Sixteen intervals. -/
  scale : τ → τ
  /-- `CoDelTimeBefore`. -/
  before : τ → τ → Bool
  /-- The time that `ControlLaw` adds. -/
  next : τ → Nat → τ
  isZero : τ → Bool

/-- The clock of the code. -/
def Clock.wrapping : Clock Nat where
  zero := 0
  ofNs n := n / 1024 % 2 ^ 32
  add a b := (a + b) % 2 ^ 32
  sub a b := (a + 2 ^ 32 - b) % 2 ^ 32
  scale a := 16 * a % 2 ^ 32
  before a b := a < b
  next := nextDrop
  isZero a := a == 0

/-- The same algorithm on unbounded time. -/
def Clock.unbounded : Clock Int where
  zero := 0
  ofNs n := (n / 1024 : Nat)
  add a b := a + b
  sub a b := a - b
  scale a := 16 * a
  before a b := a < b
  next a r := a * r / 2 ^ 16
  isZero a := a == 0

/-! ## The queue disc -/

/-- What is read of a `QueueDiscItem`; `markable` is what `Mark` returns. -/
structure Item where
  size : Nat
  timeStamp : Nat
  dsField : Option Nat
  markable : Bool
deriving DecidableEq

/-- The reasons for a mark. -/
inductive Mark
  | targetExceeded
  | ceThresholdExceeded
deriving DecidableEq

/-- The attributes, times in nanoseconds. `Target` and `Interval` are well below the range of the
clock. -/
structure Config where
  useEcn : Bool
  useL4s : Bool
  minBytes : Nat
  maxSize : Nat
  maxSizeInBytes : Bool
  interval : Nat
  target : Nat
  ceThreshold : Nat
  interval_lt : 16 * (interval / 1024) < 2 ^ 32
  target_lt : target / 1024 < 2 ^ 32

/-- The fields of `CoDelQueueDisc`. -/
structure Vars (τ : Type) where
  law : Law
  firstAboveTime : τ
  dropNext : τ
deriving DecidableEq

/-- `GetNBytes` of the internal queue. -/
def nBytes (queue : List Item) : Nat := (queue.map (·.size)).sum % 2 ^ 32

/-- What a dequeue does: what is left, what is dropped, the mark and the item that is returned. -/
structure Outcome (τ : Type) where
  queue : List Item
  vars : Vars τ
  dropped : List Item
  mark : Option Mark
  item : Option Item
deriving DecidableEq

section model
variable {τ : Type} (c : Clock τ) (cfg : Config) (ns : Nat) (v : Vars τ)

/-- `m_dropping = false`. -/
def Vars.leave : Vars τ := { v with law := v.law.leave }

/-- `OkToDrop`, at the time `ns`. -/
def okToDrop (queue : List Item) : Option Item → Bool × Vars τ
  | none => (false, { v with firstAboveTime := c.zero })
  | some item =>
    if c.before (c.ofNs (ns - item.timeStamp)) (c.ofNs cfg.target) || nBytes queue <
      cfg.minBytes then
      (false, { v with firstAboveTime := c.zero })
    else if c.isZero v.firstAboveTime then
      (false, { v with firstAboveTime := c.add (c.ofNs ns) (c.ofNs cfg.interval) })
    else (c.before v.firstAboveTime (c.ofNs ns), v)

/-- `m_dropNext = ControlLaw(t, ..)`. -/
def Vars.schedule (t : τ) : Vars τ :=
  { v with dropNext := c.add t (c.next (c.ofNs cfg.interval) v.law.recInvSqrt) }

/-- The loop in the dropping state. -/
def dropLoop (dropped : List Item) (v : Vars τ) (item : Item) (queue : List Item) : Outcome τ :=
  if v.law.dropping && !c.before (c.ofNs ns) v.dropNext then
    let v := { v with law := v.law.drop }
    if cfg.useEcn && item.markable then
      ⟨queue, v.schedule c cfg (c.ofNs ns), dropped, some .targetExceeded, some item⟩
    else match queue with
      | [] => ⟨[], (okToDrop c cfg ns v [] none).2.leave, dropped ++ [item], none, none⟩
      | next :: queue =>
        let (ok, v) := okToDrop c cfg ns v queue (some next)
        if ok then dropLoop (dropped ++ [item]) (v.schedule c cfg v.dropNext) next queue
        else ⟨queue, v.leave, dropped ++ [item], none, some next⟩
  else ⟨queue, v, dropped, none, some item⟩

/-- The entry into the dropping state. -/
def enterDropping : Vars τ :=
  let recent := c.before (c.sub (c.ofNs ns) v.dropNext) (c.scale (c.ofNs cfg.interval))
  { v with law := v.law.enter recent }.schedule c cfg (c.ofNs ns)

variable (item : Item)

/-- The first drop outside of the dropping state. -/
def firstDrop (queue : List Item) : Outcome τ :=
  if cfg.useEcn && item.markable then
    ⟨queue, enterDropping c cfg ns v, [], some .targetExceeded, some item⟩
  else match queue with
    | [] => ⟨[], enterDropping c cfg ns (okToDrop c cfg ns v [] none).2, [item], none, none⟩
    | next :: queue =>
      ⟨queue, enterDropping c cfg ns (okToDrop c cfg ns v queue (some next)).2, [item], none,
        some next⟩

/-- The item is one of L4S: ECT(1) or CE. -/
def isL4s : Bool :=
  cfg.useL4s && (item.dsField.any fun tos => tos % 4 == 1 || tos % 4 == 3)

/-- The item is above the CE threshold and takes a mark. -/
def ceMark : Bool :=
  c.before (c.ofNs cfg.ceThreshold) (c.ofNs (ns - item.timeStamp)) && item.markable

/-- The end of `DoDequeue`, which reads the time stamp of the item: none when
the item is null. -/
def finish (o : Outcome τ) : Option (Outcome τ) :=
  o.item.map fun item =>
    if o.mark.isNone && !cfg.useL4s && cfg.useEcn && ceMark c cfg ns item then
      { o with mark := some .ceThresholdExceeded }
    else o

/-- The part of `DoDequeue` for an item that is not of L4S. -/
def decideItem (queue : List Item) : Outcome τ :=
  let (ok, v) := okToDrop c cfg ns v queue (some item)
  if v.law.dropping then
    if ok then dropLoop c cfg ns [] v item queue else ⟨queue, v.leave, [], none, some item⟩
  else if ok then firstDrop c cfg ns v item queue
  else ⟨queue, v, [], none, some item⟩

/-- `DoEnqueue`: the queue, and the item where it is dropped. -/
def doEnqueue (queue : List Item) (item : Item) : List Item × List Item :=
  let size := if cfg.maxSizeInBytes then nBytes queue + item.size else queue.length + 1
  if cfg.maxSize < size then (queue, [item]) else (queue ++ [item], [])

/-- `DoDequeue`: none when a null item is used. -/
def doDequeue : List Item → Option (Outcome τ)
  | [] => some ⟨[], v.leave, [], none, none⟩
  | item :: queue =>
    if isL4s cfg item then
      some ⟨queue, v, [], if ceMark c cfg ns item then some .ceThresholdExceeded else none,
        some item⟩
    else finish c cfg ns (decideItem c cfg ns v item queue)

end model

/-! ## Runs -/

/-- A queue disc at a time in nanoseconds. -/
structure World (τ : Type) where
  now : Nat
  queue : List Item
  vars : Vars τ

/-- A call of the queue disc, some time after the last one. -/
inductive Action
  | enqueue (delay : Nat) (item : Item)
  | dequeue (delay : Nat)

/-- What is seen of a call: the items it drops, the mark it makes and the item it returns. -/
abbrev Decision := List Item × Option Mark × Option Item

/-- A queue disc as it is constructed. -/
def World.init {τ : Type} (c : Clock τ) : World τ := ⟨0, [], ⟨.init, c.zero, c.zero⟩⟩

/-- A call; none when it uses a null item. -/
def World.call {τ : Type} (c : Clock τ) (cfg : Config) (w : World τ) :
    Action → Option (World τ × Decision)
  | .enqueue delay item =>
    let (queue, dropped) := doEnqueue cfg w.queue { item with timeStamp := w.now + delay }
    some (⟨w.now + delay, queue, w.vars⟩, dropped, none, none)
  | .dequeue delay =>
    (doDequeue c cfg (w.now + delay) w.vars w.queue).map fun o =>
      (⟨w.now + delay, o.queue, o.vars⟩, o.dropped, o.mark, o.item)

/-- A dequeue enters the dropping state with the number of drops of the last one. -/
def reenters {τ : Type} (c : Clock τ) (cfg : Config) (ns : Nat) (v : Vars τ) : List Item → Bool
  | [] => false
  | item :: queue => !isL4s cfg item && !v.law.dropping && decide (1 < v.law.delta) &&
      (okToDrop c cfg ns v queue (some item)).1

/-- The last item of the queue is to be dropped when its turn comes, which it does in the dropping
state or as the only item. -/
def drains {τ : Type} (c : Clock τ) (cfg : Config) (ns : Nat) (v : Vars τ) (queue : List Item) :
    Bool :=
  queue.getLast?.any fun last =>
    (v.law.dropping || queue.length == 1) && !(cfg.useEcn && last.markable) &&
    (okToDrop c cfg ns v [] (some last)).1

/-- A dequeue comes to the loop in the dropping state. -/
def loops {τ : Type} (c : Clock τ) (cfg : Config) (ns : Nat) (v : Vars τ) : List Item → Bool
  | [] => false
  | item :: queue => !isL4s cfg item && v.law.dropping && (okToDrop c cfg ns v queue (some item)).1

/-- `OkToDrop` compares the time with `m_firstAboveTime` for an item. -/
def above (cfg : Config) (ns : Nat) (queue : List Item) (item : Item) : Bool :=
  !(Clock.wrapping.before (Clock.wrapping.ofNs (ns - item.timeStamp))
    (Clock.wrapping.ofNs cfg.target) || nBytes queue < cfg.minBytes)

/-- It does for the first item. -/
def readsFirstAbove (cfg : Config) (ns : Nat) : List Item → Bool
  | [] => false
  | item :: queue => !isL4s cfg item && above cfg ns queue item

/-- A deadline lies in the same turn of the clock as the time `ns`. -/
def SameTurn (deadline : Int) (ns : Nat) : Prop := deadline / 2 ^ 32 = (ns / 1024 : Nat) / 2 ^ 32
deriving Decidable

/-- A deadline is past, by less than a turn. -/
def Past (deadline : Int) (ns : Nat) : Prop :=
  deadline ≤ (ns / 1024 : Nat) ∧ (ns / 1024 : Nat) < deadline + 2 ^ 32
deriving Decidable

/-- An item has waited for less than a turn. -/
def Recent (ns : Nat) (item : Item) : Prop := (ns - item.timeStamp) / 1024 < 2 ^ 32
deriving Decidable

/-- `CeThreshold`, if it is read, is in the range of the clock or cut to its last count. -/
def Config.CeFits (cfg : Config) : Prop := (cfg.useEcn || cfg.useL4s) = true →
  cfg.ceThreshold / 1024 < 2 ^ 32 ∨ cfg.ceThreshold / 1024 % 2 ^ 32 = 2 ^ 32 - 1
deriving Decidable

/-- The queue disc, and the one on unbounded time. -/
abbrev Worlds := World Nat × World Int

/-- The same call of both. -/
def Worlds.call (cfg : Config) (w : Worlds) (a : Action) : Option Worlds :=
  (w.1.call .wrapping cfg a).bind fun x => (w.2.call .unbounded cfg a).map fun y => (x.1, y.1)

/-- A dequeue finds no last item to drop, no item that has waited for a turn of the clock, the
deadlines that it compares with the time in the same turn, `m_firstAboveTime` not cut to zero, and
the next interval too if it may drop again; and the next drop of an earlier dropping state past, if
it takes up the number of drops of that. -/
def Fits (cfg : Config) (w : Worlds) : Action → Prop
  | .enqueue _ _ => True
  | .dequeue delay => drains .wrapping cfg (w.1.now + delay) w.1.vars w.1.queue = false ∧
      cfg.CeFits ∧ (∀ item ∈ w.1.queue, Recent (w.1.now + delay) item) ∧
      (readsFirstAbove cfg (w.1.now + delay) w.1.queue = true → w.2.vars.firstAboveTime ≠ 0 →
        w.1.vars.firstAboveTime ≠ 0 ∧ SameTurn w.2.vars.firstAboveTime (w.1.now + delay)) ∧
      (loops .wrapping cfg (w.1.now + delay) w.1.vars w.1.queue = true →
        SameTurn w.2.vars.dropNext (w.1.now + delay) ∧
        (w.1.now + delay) / 1024 % 2 ^ 32 + cfg.interval / 1024 < 2 ^ 32) ∧
      (reenters .wrapping cfg (w.1.now + delay) w.1.vars w.1.queue = true →
        Past w.2.vars.dropNext (w.1.now + delay))

instance {cfg : Config} {w : Worlds} : ∀ a, Decidable (Fits cfg w a)
  | .enqueue _ _ => inferInstanceAs (Decidable True)
  | .dequeue _ => inferInstanceAs (Decidable (_ ∧ _))

/-! ## No null item -/

section null
variable {τ : Type} {c : Clock τ} {cfg : Config} {ns : Nat} {v : Vars τ} {item : Item}
  {queue dropped : List Item}

@[simp] theorem okToDrop_law (item : Option Item) :
    (okToDrop c cfg ns v queue item).2.law = v.law := by
  unfold okToDrop
  repeat' split
  all_goals rfl

@[simp] theorem okToDrop_dropNext (item : Option Item) :
    (okToDrop c cfg ns v queue item).2.dropNext = v.dropNext := by
  unfold okToDrop
  repeat' split
  all_goals rfl

theorem okToDrop_congr {v' : Vars τ} (h : v.firstAboveTime = v'.firstAboveTime)
    (item : Option Item) :
    (okToDrop c cfg ns v queue item).1 = (okToDrop c cfg ns v' queue item).1 := by
  unfold okToDrop
  rw [h]
  repeat' split
  all_goals rfl

theorem firstAboveTime_of_okToDrop {item : Option Item}
    (h : (okToDrop c cfg ns v queue item).1 = true) :
    (okToDrop c cfg ns v queue item).2.firstAboveTime = v.firstAboveTime := by
  unfold okToDrop at h ⊢
  repeat' split
  all_goals simp_all

theorem item_dropLoop (hok : (okToDrop c cfg ns v queue (some item)).1 = true)
    (hlast : ∀ last ∈ (item :: queue).getLast?, (cfg.useEcn && last.markable) = false →
      (okToDrop c cfg ns v [] (some last)).1 = false) :
    (dropLoop c cfg ns dropped v item queue).item ≠ none := by
  induction queue generalizing item v dropped with
  | nil =>
    rw [dropLoop]
    split
    · dsimp only
      split
      · simp
      · next hmark =>
        have hstays := hlast item rfl (Bool.eq_false_of_not_eq_true hmark)
        rw [hok] at hstays
        cases hstays
    · simp
  | cons next queue ih =>
    rw [dropLoop]
    split
    · dsimp only
      split
      · simp
      · split
        · next hnext =>
          have hfirst :
              ((okToDrop c cfg ns { v with law := v.law.drop } queue (some next)).2.schedule c cfg
              (okToDrop c cfg ns { v with law := v.law.drop } queue
                (some next)).2.dropNext).firstAboveTime =
              ({ v with law := v.law.drop } : Vars τ).firstAboveTime :=
                firstAboveTime_of_okToDrop hnext
          refine ih ((okToDrop_congr hfirst _).trans hnext) fun last hmem hmark => ?_
          have hlaw : ({ v with law := v.law.drop } : Vars τ).firstAboveTime = v.firstAboveTime :=
            rfl
          rw [okToDrop_congr hfirst, okToDrop_congr hlaw]
          exact hlast last (by rwa [List.getLast?_cons_cons]) hmark
        · simp
    · simp

theorem item_decideItem (h : drains c cfg ns v (item :: queue) = false) :
    (decideItem c cfg ns v item queue).item ≠ none := by
  unfold decideItem
  dsimp only
  split
  · next hdrop =>
    split
    · next hok =>
      have hfirst := firstAboveTime_of_okToDrop hok
      refine item_dropLoop ((okToDrop_congr hfirst _).trans hok) fun last hmem hmark => ?_
      rw [okToDrop_congr hfirst]
      rw [okToDrop_law] at hdrop
      rw [drains, mem_def.1 hmem, any_some, hdrop, hmark] at h
      simpa using h
    · simp
  · split
    · next hok =>
      unfold firstDrop
      split
      · simp
      · next hmark =>
        cases queue with
        | nil => exact absurd (by simpa [drains, hok] using h) hmark
        | cons next queue => simp
    · simp

end null

/-! ## The clock of the code -/

/-- The variables of the code are those on unbounded time, cut to 32 bits. -/
structure Same (v : Vars Nat) (u : Vars Int) : Prop where
  law : v.law = u.law
  recInvSqrt : v.law.recInvSqrt < 2 ^ 16
  firstAboveTime : (v.firstAboveTime : Int) = u.firstAboveTime % 2 ^ 32
  dropNext : (v.dropNext : Int) = u.dropNext % 2 ^ 32

/-- The outcomes on both clocks are the same, and the item has waited for less than a turn. -/
structure SameOutcome (ns : Nat) (o : Outcome Nat) (o' : Outcome Int) : Prop where
  queue : o.queue = o'.queue
  vars : Same o.vars o'.vars
  dropped : o.dropped = o'.dropped
  mark : o.mark = o'.mark
  item : o.item = o'.item
  wait : ∀ i, o.item = some i → Recent ns i

/-- The queue discs on both clocks are the same. -/
structure SameWorld (w : Worlds) : Prop where
  now : w.1.now = w.2.now
  queue : w.1.queue = w.2.queue
  vars : Same w.1.vars w.2.vars

section same
variable {cfg : Config} {ns : Nat} {v : Vars Nat} {u : Vars Int} {item : Item}
  {queue dropped : List Item} {a b : Nat} {x y : Int}

theorem ofNs_cast (n : Nat) : (Clock.wrapping.ofNs n : Int) = Clock.unbounded.ofNs n % 2 ^ 32 := by
  simp [Clock.wrapping, Clock.unbounded]

theorem ofNs_eq {n : Nat} (h : n / 1024 < 2 ^ 32) :
    (Clock.wrapping.ofNs n : Int) = Clock.unbounded.ofNs n := by
  simp only [Clock.wrapping, Clock.unbounded, Nat.mod_eq_of_lt h]

theorem before_cast (a b : Nat) : Clock.unbounded.before a b = Clock.wrapping.before a b := by
  simp [Clock.wrapping, Clock.unbounded]

/-- Counts of one turn are in the order of the times. -/
theorem before_of_turn (ha : (a : Int) = x % 2 ^ 32) (hb : (b : Int) = y % 2 ^ 32)
    (hturn : x / 2 ^ 32 = y / 2 ^ 32) : Clock.wrapping.before a b = Clock.unbounded.before x y := by
  simp only [Clock.wrapping, Clock.unbounded, decide_eq_decide]
  omega

theorem add_cast (ha : (a : Int) = x % 2 ^ 32) (hb : (b : Int) = y % 2 ^ 32) :
    (Clock.wrapping.add a b : Int) = Clock.unbounded.add x y % 2 ^ 32 := by
  simp only [Clock.wrapping, Clock.unbounded]
  omega

theorem sub_cast (ha : (a : Int) = x % 2 ^ 32) (hb : (b : Int) = y % 2 ^ 32) (hle : y ≤ x)
    (hlt : x < y + 2 ^ 32) : (Clock.wrapping.sub a b : Int) = Clock.unbounded.sub x y := by
  simp only [Clock.wrapping, Clock.unbounded]
  omega

theorem scale_cast {a : Nat} (h : 16 * a < 2 ^ 32) :
    (Clock.wrapping.scale a : Int) = Clock.unbounded.scale a := by
  simp only [Clock.wrapping, Clock.unbounded, Nat.mod_eq_of_lt h]
  omega

theorem Config.interval_fits (cfg : Config) : cfg.interval / 1024 < 2 ^ 32 := by
  have := cfg.interval_lt
  omega

theorem next_cast {a r : Nat} (ha : a < 2 ^ 32) (hr : r < 2 ^ 16) :
    (Clock.wrapping.next a r : Int) = Clock.unbounded.next a r := by
  have hmul : a * (r * 2 ^ 16) < 2 ^ 64 := by
    calc a * (r * 2 ^ 16) ≤ 2 ^ 32 * (r * 2 ^ 16) := Nat.mul_le_mul_right _ ha.le
      _ < 2 ^ 64 := by omega
  have hdiv : a * (r * 2 ^ 16) / 2 ^ 32 = a * r / 2 ^ 16 := by
    rw [← Nat.mul_assoc, show 2 ^ 32 = 2 ^ 16 * 2 ^ 16 by norm_num]
    exact Nat.mul_div_mul_right _ _ (by norm_num)
  have hlt : a * (r * 2 ^ 16) / 2 ^ 32 < 2 ^ 32 :=
    Nat.div_lt_of_lt_mul (hmul.trans_eq (by norm_num))
  have heq : Clock.wrapping.next a r = a * r / 2 ^ 16 := by
    change nextDrop a r = _
    rw [nextDrop, reciprocalDivide, Nat.mod_eq_of_lt (by omega : r * 2 ^ 16 < 2 ^ 32),
      Nat.mod_eq_of_lt hmul, Nat.mod_eq_of_lt hlt, hdiv]
  rw [heq]
  simp [Clock.unbounded]

/-- What `ControlLaw` adds is the same on both clocks, and at most an interval. -/
theorem next_interval (cfg : Config) {r : Nat} (hr : r < 2 ^ 16) :
    (Clock.wrapping.next (Clock.wrapping.ofNs cfg.interval) r : Int) =
        Clock.unbounded.next (Clock.unbounded.ofNs cfg.interval) r ∧
      Clock.wrapping.next (Clock.wrapping.ofNs cfg.interval) r ≤ cfg.interval / 1024 := by
  refine ⟨?_, (Law.nextDrop_le _ _).trans (Nat.mod_le _ _)⟩
  have hlt : Clock.wrapping.ofNs cfg.interval < 2 ^ 32 := Nat.mod_lt _ (by norm_num)
  rw [← ofNs_eq cfg.interval_fits]
  exact next_cast hlt hr

theorem Same.leave (h : Same v u) : Same v.leave u.leave :=
  ⟨congrArg Law.leave h.law, h.recInvSqrt, h.firstAboveTime, h.dropNext⟩

/-- `m_firstAboveTime` can be compared with the time. -/
def Readable (v : Vars Nat) (u : Vars Int) (ns : Nat) : Prop :=
  u.firstAboveTime ≠ 0 → v.firstAboveTime ≠ 0 ∧ SameTurn u.firstAboveTime ns

/-- A decision needs the deadline only for an item above the target. -/
theorem same_okToDrop (cfg : Config) (queue : List Item) (h : Same v u) (hwait : Recent ns item)
    (hread : above cfg ns queue item = true → Readable v u ns) :
    (okToDrop .wrapping cfg ns v queue (some item)).1 =
      (okToDrop .unbounded cfg ns u queue (some item)).1 ∧
        Same (okToDrop .wrapping cfg ns v queue (some item)).2
          (okToDrop .unbounded cfg ns u queue (some item)).2 := by
  rw [okToDrop, okToDrop, ← ofNs_eq hwait, ← ofNs_eq cfg.target_lt, before_cast]
  split
  · exact ⟨rfl, h.law, h.recInvSqrt, rfl, h.dropNext⟩
  · next habove =>
    have hread := hread (by rw [above, Bool.eq_false_of_not_eq_true habove]; rfl)
    have hzero : Clock.wrapping.isZero v.firstAboveTime =
      Clock.unbounded.isZero u.firstAboveTime := by
      have hfirst := h.firstAboveTime
      have hne : u.firstAboveTime ≠ 0 → v.firstAboveTime ≠ 0 := fun hu => (hread hu).1
      simp only [Clock.wrapping, Clock.unbounded]
      rw [Bool.eq_iff_iff, beq_iff_eq, beq_iff_eq]
      omega
    rw [hzero]
    split
    · exact ⟨rfl, h.law, h.recInvSqrt, add_cast (ofNs_cast _) (ofNs_cast _), h.dropNext⟩
    · next hset =>
      have hturn := (hread (by simpa [Clock.unbounded] using hset)).2
      exact ⟨before_of_turn h.firstAboveTime (ofNs_cast ns) hturn, h⟩

theorem same_okToDrop_none (h : Same v u) :
    Same (okToDrop .wrapping cfg ns v [] none).2 (okToDrop .unbounded cfg ns u [] none).2 :=
  ⟨h.law, h.recInvSqrt, rfl, h.dropNext⟩

theorem above_of_okToDrop (h : (okToDrop .wrapping cfg ns v queue (some item)).1 = true) :
    above cfg ns queue item = true := by
  rw [okToDrop] at h
  split at h
  · cases h
  · next habove =>
    rw [above, Bool.eq_false_of_not_eq_true habove]
    rfl

theorem same_schedule (h : Same v u) (hb : (b : Int) = y % 2 ^ 32) :
    Same (v.schedule .wrapping cfg b) (u.schedule .unbounded cfg y) := by
  obtain ⟨heq, hle⟩ := next_interval cfg h.recInvSqrt
  have hinterval := cfg.interval_fits
  refine ⟨h.law, h.recInvSqrt, h.firstAboveTime, add_cast hb ?_⟩
  rw [← h.law, ← heq]
  omega

/-- A drop that was due schedules the next one in the same turn. -/
theorem schedule_turn (hr : u.law.recInvSqrt < 2 ^ 16) (hle : y ≤ (ns / 1024 : Nat))
    (hturn : SameTurn y ns) (hns : ns / 1024 % 2 ^ 32 + cfg.interval / 1024 < 2 ^ 32) :
    SameTurn (u.schedule .unbounded cfg y).dropNext ns := by
  obtain ⟨heq, hnext⟩ := next_interval cfg hr
  change (y + Clock.unbounded.next (Clock.unbounded.ofNs cfg.interval) u.law.recInvSqrt) / 2 ^ 32 =
    _
  rw [SameTurn] at hturn
  rw [← heq]
  omega

theorem same_law (h : Same v u) {l : Law} (hr : l.recInvSqrt < 2 ^ 16) :
    Same { v with law := l } { u with law := l } :=
  ⟨rfl, hr, h.firstAboveTime, h.dropNext⟩

theorem enter_lt (l : Law) (recent : Bool) : (l.enter recent).recInvSqrt < 2 ^ 16 := by
  rw [Law.enter]
  split
  · exact Nat.mod_lt _ (by norm_num)
  · exact (by decide : one < 2 ^ 16)

section
variable (h : Same v u)
include h

theorem same_drop : Same { v with law := v.law.drop } { u with law := u.law.drop } := by
  rw [← h.law]
  exact same_law h (Nat.mod_lt _ (by norm_num))

theorem same_due (hturn : SameTurn u.dropNext ns) :
    (u.law.dropping && !Clock.unbounded.before (Clock.unbounded.ofNs ns) u.dropNext) =
      (v.law.dropping && !Clock.wrapping.before (Clock.wrapping.ofNs ns) v.dropNext) := by
  rw [← h.law, before_of_turn (ofNs_cast ns) h.dropNext hturn.symm]

/-- The loop does the same on both clocks: each of its drops was due, so the next one is scheduled
up to an interval after the time of the call, and in the same turn. -/
theorem same_dropLoop (hwait : ∀ i ∈ item :: queue, Recent ns i)
    (hread : Readable v u ns) (hturn : SameTurn u.dropNext ns)
    (hns : ns / 1024 % 2 ^ 32 + cfg.interval / 1024 < 2 ^ 32) :
    SameOutcome ns (dropLoop .wrapping cfg ns dropped v item queue)
      (dropLoop .unbounded cfg ns dropped u item queue) := by
  have hitem : ∀ i, some item = some i → Recent ns i :=
    fun _ hi => some.inj hi ▸ hwait item List.mem_cons_self
  induction queue generalizing item v u dropped with
  | nil =>
    rw [dropLoop, dropLoop, same_due h hturn]
    have hdrop := same_drop h
    split
    · dsimp only
      split
      · exact ⟨rfl, same_schedule hdrop (ofNs_cast ns), rfl, rfl, rfl, hitem⟩
      · exact ⟨rfl, (same_okToDrop_none hdrop).leave, rfl, rfl, rfl,
          fun _ hi => absurd hi (by simp)⟩
    · exact ⟨rfl, h, rfl, rfl, rfl, hitem⟩
  | cons next queue ih =>
    have hwait := (List.forall_mem_cons.1 hwait).2
    have hnext : ∀ i, some next = some i → Recent ns i :=
      fun _ hi => some.inj hi ▸ hwait next List.mem_cons_self
    rw [dropLoop, dropLoop, same_due h hturn]
    have hdrop := same_drop h
    split
    · next hdue =>
      dsimp only
      split
      · exact ⟨rfl, same_schedule hdrop (ofNs_cast ns), rfl, rfl, rfl, hitem⟩
      · obtain ⟨hok, hsame⟩ := same_okToDrop cfg queue hdrop (hnext next rfl) fun _ => hread
        rw [← hok]
        split
        · next hyes =>
          have hfirst := firstAboveTime_of_okToDrop hyes
          have hfirst' := firstAboveTime_of_okToDrop (hok ▸ hyes)
          refine ih (same_schedule hsame hsame.dropNext) hwait ?_ ?_ hnext
          · rw [Readable, Vars.schedule, Vars.schedule, hfirst, hfirst']
            exact hread
          · rw [← same_due h hturn] at hdue
            have hle : u.dropNext ≤ (ns / 1024 : Nat) := by
              simpa [Clock.unbounded] using (Bool.and_eq_true_iff.1 hdue).2
            refine schedule_turn (hsame.law ▸ hsame.recInvSqrt) ?_ ?_ hns
            · rwa [okToDrop_dropNext]
            · rwa [okToDrop_dropNext]
        · exact ⟨rfl, hsame.leave, rfl, rfl, rfl, hnext⟩
    · exact ⟨rfl, h, rfl, rfl, rfl, hitem⟩

/-- An entry does the same on both clocks, where the next drop of the last dropping state is less
than a turn ago or its number of drops is not taken up. -/
theorem same_enterDropping (hre : 1 < v.law.delta → Past u.dropNext ns) :
    Same (enterDropping .wrapping cfg ns v) (enterDropping .unbounded cfg ns u) := by
  have hlaw : v.law.enter
        (Clock.wrapping.before (Clock.wrapping.sub (Clock.wrapping.ofNs ns) v.dropNext)
        (Clock.wrapping.scale (Clock.wrapping.ofNs cfg.interval))) =
      u.law.enter (Clock.unbounded.before (Clock.unbounded.sub (Clock.unbounded.ofNs ns) u.dropNext)
        (Clock.unbounded.scale (Clock.unbounded.ofNs cfg.interval))) := by
    rw [← h.law, ← ofNs_eq cfg.interval_fits]
    by_cases hdelta : 1 < v.law.delta
    · obtain ⟨hle, hlt⟩ := hre hdelta
      have hinterval : 16 * Clock.wrapping.ofNs cfg.interval < 2 ^ 32 := by
        rw [show Clock.wrapping.ofNs cfg.interval = cfg.interval / 1024 from Nat.mod_eq_of_lt
          cfg.interval_fits]
        exact cfg.interval_lt
      rw [← sub_cast (ofNs_cast ns) h.dropNext hle hlt, ← scale_cast hinterval, before_cast]
    · rw [Law.enter, Law.enter, if_neg (fun hc => hdelta hc.1), if_neg (fun hc => hdelta hc.1)]
  rw [enterDropping, enterDropping, ← hlaw]
  exact same_schedule (same_law h (enter_lt _ _)) (ofNs_cast ns)

theorem same_firstDrop (hwait : ∀ i ∈ item :: queue, Recent ns i) (hread : Readable v u ns)
    (hre : 1 < v.law.delta → Past u.dropNext ns) :
    SameOutcome ns (firstDrop .wrapping cfg ns v item queue)
      (firstDrop .unbounded cfg ns u item queue) := by
  unfold firstDrop
  split
  · exact ⟨rfl, same_enterDropping h hre, rfl, rfl, rfl, fun _ hi =>
      some.inj hi ▸ hwait item List.mem_cons_self⟩
  · cases queue with
    | nil => exact ⟨rfl, same_enterDropping (same_okToDrop_none h) hre, rfl, rfl, rfl,
        fun _ hi => absurd hi (by simp)⟩
    | cons next queue =>
      have hnext := hwait next (List.mem_cons_of_mem _ List.mem_cons_self)
      have hsame := (same_okToDrop cfg queue h hnext fun _ => hread).2
      refine ⟨rfl, same_enterDropping hsame ?_, rfl, rfl, rfl, fun _ hi => some.inj hi ▸ hnext⟩
      rwa [okToDrop_law, okToDrop_dropNext]

theorem same_decideItem (hwait : ∀ i ∈ item :: queue, Recent ns i)
    (hread : above cfg ns queue item = true → Readable v u ns)
    (hloop : v.law.dropping = true → (okToDrop .wrapping cfg ns v queue (some item)).1 = true →
      SameTurn u.dropNext ns ∧ ns / 1024 % 2 ^ 32 + cfg.interval / 1024 < 2 ^ 32)
    (hre : v.law.dropping = false → 1 < v.law.delta →
      (okToDrop .wrapping cfg ns v queue (some item)).1 = true → Past u.dropNext ns) :
    SameOutcome ns (decideItem .wrapping cfg ns v item queue)
      (decideItem .unbounded cfg ns u item queue) := by
  have hitem := hwait item List.mem_cons_self
  obtain ⟨hok, hsame⟩ := same_okToDrop cfg queue h hitem hread
  have hfirst : (okToDrop .wrapping cfg ns v queue (some item)).1 = true →
      Readable (okToDrop .wrapping cfg ns v queue (some item)).2
      (okToDrop .unbounded cfg ns u queue (some item)).2 ns := by
    intro hyes
    rw [Readable, firstAboveTime_of_okToDrop hyes, firstAboveTime_of_okToDrop (hok ▸ hyes)]
    exact hread (above_of_okToDrop hyes)
  unfold decideItem
  dsimp only
  rw [← hok, ← hsame.law, okToDrop_law]
  split
  · next hdrop =>
    split
    · next hyes =>
      obtain ⟨hturn, hns⟩ := hloop hdrop hyes
      exact same_dropLoop hsame hwait (hfirst hyes) (by rwa [okToDrop_dropNext]) hns
    · exact ⟨rfl, hsame.leave, rfl, rfl, rfl, fun _ hi => some.inj hi ▸ hitem⟩
  · next hdrop =>
    split
    · next hyes =>
      refine same_firstDrop hsame hwait (hfirst hyes) ?_
      rw [okToDrop_law, okToDrop_dropNext]
      exact fun hdelta => hre (Bool.eq_false_of_not_eq_true hdrop) hdelta hyes
    · exact ⟨rfl, hsame, rfl, rfl, rfl, fun _ hi => some.inj hi ▸ hitem⟩

end

theorem same_ceMark (hwait : Recent ns item)
    (hce : cfg.CeFits) (hread : (cfg.useEcn || cfg.useL4s) = true) :
    ceMark .wrapping cfg ns item = ceMark .unbounded cfg ns item := by
  rw [ceMark, ceMark, ← ofNs_eq hwait]
  cases hce hread with
  | inl hlt => rw [← ofNs_eq hlt, before_cast]
  | inr hmax =>
    -- the last count of the clock, and all that are cut to it, are never exceeded
    have hw : Clock.wrapping.before (Clock.wrapping.ofNs cfg.ceThreshold)
        (Clock.wrapping.ofNs (ns - item.timeStamp)) = false := by
      simp only [Clock.wrapping, hmax, decide_eq_false_iff_not]
      omega
    have hu : Clock.unbounded.before (Clock.unbounded.ofNs cfg.ceThreshold)
        (Clock.wrapping.ofNs (ns - item.timeStamp)) = false := by
      simp only [Clock.unbounded, Clock.wrapping, decide_eq_false_iff_not]
      omega
    rw [hw, hu]

theorem same_finish {o : Outcome Nat} {o' : Outcome Int} (ho : SameOutcome ns o o')
    (hce : cfg.CeFits) (hitem : o.item ≠ none) :
    ∃ p p', finish .wrapping cfg ns o = some p ∧ finish .unbounded cfg ns o' = some p' ∧
      SameOutcome ns p p' := by
  obtain ⟨item, hsome⟩ := ne_none_iff_exists'.1 hitem
  have hmark : (o.mark.isNone && !cfg.useL4s && cfg.useEcn && ceMark .wrapping cfg ns item) =
      (o.mark.isNone && !cfg.useL4s && cfg.useEcn && ceMark .unbounded cfg ns item) := by
    cases hecn : cfg.useEcn with
    | false => simp
    | true => rw [same_ceMark (ho.wait item hsome) hce (by simp [hecn])]
  rw [finish, finish, ← ho.item, hsome, map_some, map_some, ← ho.mark, hmark]
  refine ⟨_, _, rfl, rfl, ?_⟩
  split
  · exact ⟨ho.queue, ho.vars, ho.dropped, rfl, rfl, fun _ hi => ho.wait _ (hsome.trans hi)⟩
  · exact ho

theorem same_call {w : Worlds} {a : Action} (hw : SameWorld w) (hf : Fits cfg w a) :
    ∃ x d, w.1.call .wrapping cfg a = some (x.1, d) ∧ w.2.call .unbounded cfg a = some (x.2, d) ∧
      SameWorld x := by
  cases a with
  | enqueue delay item =>
    rw [World.call, World.call, ← hw.now, ← hw.queue]
    exact ⟨(_, _), _, rfl, rfl, rfl, rfl, hw.vars⟩
  | dequeue delay =>
    obtain ⟨hdrains, hce, hwait, hread, hloop, hre⟩ := hf
    obtain ⟨o, o', ho, ho', hsame⟩ : ∃ o o',
        doDequeue .wrapping cfg (w.1.now + delay) w.1.vars w.1.queue = some o ∧
        doDequeue .unbounded cfg (w.1.now + delay) w.2.vars w.1.queue = some o' ∧
          SameOutcome (w.1.now + delay) o o' := by
      generalize w.1.queue = queue at hdrains hwait hread hloop hre
      cases queue with
      | nil => exact ⟨_, _, rfl, rfl, rfl, hw.vars.leave, rfl, rfl, rfl,
          fun _ hi => absurd hi (by simp)⟩
      | cons item queue =>
        have hitem := hwait item List.mem_cons_self
        rw [doDequeue, doDequeue]
        split
        · next hl4s =>
          rw [same_ceMark hitem hce (by simp [(Bool.and_eq_true_iff.1 hl4s).1])]
          exact ⟨_, _, rfl, rfl, rfl, hw.vars, rfl, rfl, rfl, fun _ hi => some.inj hi ▸ hitem⟩
        · next hl4s =>
          refine same_finish (same_decideItem hw.vars hwait ?_ ?_ ?_) hce (item_decideItem hdrains)
          · exact fun habove => hread (by simp [readsFirstAbove, hl4s, habove])
          · exact fun hdrop hok => hloop (by simp [loops, hl4s, hdrop, hok])
          · exact fun hdrop hdelta hok => hre (by simp [reenters, hl4s, hdrop, hdelta, hok])
    rw [World.call, World.call, ← hw.now, ← hw.queue, ho, ho', map_some, map_some, hsame.queue,
      hsame.dropped, hsame.mark, hsame.item]
    exact ⟨(_, _), _, rfl, rfl, rfl, rfl, hsame.vars⟩

/-- Both queue discs as they are constructed. -/
def Worlds.init : Worlds := (.init .wrapping, .init .unbounded)

theorem same_init : SameWorld .init :=
  ⟨rfl, rfl, rfl, by decide, rfl, rfl⟩

theorem same_outputs {as : List Action} {w : Worlds} (hw : SameWorld w)
    (h : Lts.Along (Worlds.call cfg) (Fits cfg) w as) :
    ∃ x ds, Lts.outputs (World.call .wrapping cfg) w.1 as = some (x.1, ds) ∧
      Lts.outputs (World.call .unbounded cfg) w.2 as = some (x.2, ds) ∧ SameWorld x := by
  induction as generalizing w with
  | nil => exact ⟨w, [], rfl, rfl, hw⟩
  | cons a as ih =>
    obtain ⟨hf, htail⟩ := h
    obtain ⟨x, d, hc, hc', hx⟩ := same_call hw hf
    obtain ⟨y, ds, hy, hy', hsame⟩ := ih hx (htail x (by rw [Worlds.call, hc, hc']; rfl))
    refine ⟨y, d :: ds, ?_, ?_, hsame⟩
    · rw [Lts.outputs, hc, bind_some, hy, map_some]
    · rw [Lts.outputs, hc', bind_some, hy', map_some]

end same

/-- In every run whose dequeues fit, no dequeue uses a null item, and the drops, marks and items are
those on unbounded time. -/
theorem agrees_of_run (cfg : Config) (as : List Action)
    (h : Lts.Along (Worlds.call cfg) (Fits cfg) .init as) :
    ∃ w w' ds, Lts.outputs (World.call .wrapping cfg) (World.init .wrapping) as = some (w, ds) ∧
      Lts.outputs (World.call .unbounded cfg) (World.init .unbounded) as = some (w', ds) := by
  obtain ⟨x, ds, hx, hx', -⟩ := same_outputs same_init h
  exact ⟨x.1, x.2, ds, hx, hx'⟩

/-! ## Runs that do not fit -/

/-- The attributes as they are set at first, but for `MinBytes`. -/
def Config.default (minBytes : Nat) : Config where
  useEcn := false
  useL4s := false
  minBytes := minBytes
  maxSize := 1500000
  maxSizeInBytes := true
  interval := 100000000
  target := 5000000
  ceThreshold := 2 ^ 63 - 1
  interval_lt := by decide
  target_lt := by decide

/-- A packet that takes no mark. -/
def packet : Item := ⟨1500, 0, none, false⟩

/-- Four packets come after the clock has wrapped, and the second dequeue drops one of them. -/
theorem agrees_of_run_wrapped :
    ∃ w w' ds, Lts.outputs (World.call .wrapping (.default 1500)) (World.init .wrapping)
        [.enqueue 5000000000000 packet, .enqueue 0 packet, .enqueue 0 packet, .enqueue 0 packet,
          .dequeue 10000000, .dequeue 200000000] = some (w, ds) ∧
      Lts.outputs (World.call .unbounded (.default 1500)) (World.init .unbounded)
        [.enqueue 5000000000000 packet, .enqueue 0 packet, .enqueue 0 packet, .enqueue 0 packet,
          .dequeue 10000000, .dequeue 200000000] = some (w', ds) :=
  agrees_of_run _ _ ⟨trivial, fun _ h => by
    cases h
    refine ⟨trivial, fun _ h => ?_⟩
    cases h
    refine ⟨trivial, fun _ h => ?_⟩
    cases h
    refine ⟨trivial, fun _ h => ?_⟩
    cases h
    refine ⟨by decide +kernel, fun _ h => ?_⟩
    cases h
    exact ⟨by decide +kernel, fun _ _ => trivial⟩⟩

/-- Without `MinBytes`, the drop of the last packet leaves a null item. Less than an interval before
the clock wraps, the deadline of the first packet above the target is past at once. -/
theorem null_item_or_early_drop :
    (Lts.outputs (World.call .wrapping (.default 0)) (World.init .wrapping)
      [.enqueue 0 packet, .enqueue 0 packet, .dequeue 10000000, .dequeue 200000000]).isNone = true ∧
    (Lts.outputs (World.call .wrapping (.default 1500)) (World.init .wrapping)
        [.enqueue 4397946511104 packet, .enqueue 0 packet, .enqueue 0 packet, .enqueue 0 packet,
          .dequeue 50000000, .dequeue 10000000]).map Prod.snd ≠
      (Lts.outputs (World.call .unbounded (.default 1500)) (World.init .unbounded)
        [.enqueue 4397946511104 packet, .enqueue 0 packet, .enqueue 0 packet, .enqueue 0 packet,
          .dequeue 50000000, .dequeue 10000000]).map Prod.snd := by
  constructor
  · decide +kernel
  · decide +kernel

end OranNs3.CoDel
