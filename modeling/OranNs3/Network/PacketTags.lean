import OranNs3.Lib.SharedList

/-!
# Packet tags

A `PacketTagList` is a pointer into a forest of nodes that hold serialized tags
(`src/src/network/model/packet-tag-list.cc`). A copy of a list points to the same node; a node
counts the pointers to it. `Remove` and `Replace` work in place on the nodes that only their list
can reach, and copy the shared nodes before the tag that they look for.

The heap maps addresses to nodes. The classes of tags are a parameter (`TagTypes`). A pointer to
nothing, a failed assertion and a loop of more steps than there are addresses are `none`. What the
lists are for is stated at the end (`tagMaps`).
-/

namespace OranNs3.Network

open SharedList (Slot)

/-- The classes of tags: `GetInstanceTypeId`, the bytes that `Serialize` writes, which are as many
as `GetSerializedSize` says, and `Deserialize`, which reads what was written and nothing behind it.
-/
structure TagTypes (Tid Tag : Type) where
  tid : Tag → Tid
  serialize : Tag → List UInt8
  deserialize : Tid → List UInt8 → Option Tag
  read_back : ∀ tag rest, deserialize (tid tag) (serialize tag ++ rest) = some tag

/-- `TagData`; the `size` bytes of the area behind it are `data`. -/
structure TagData (Tid : Type) where
  next : Option Nat
  count : Nat
  tid : Tid
  data : List UInt8

/-- The size of a node. -/
def TagData.size {Tid : Type} (n : TagData Tid) : Nat := n.data.length

/-- The nodes, and the next address. -/
structure TagHeap (Tid : Type) where
  nodes : Nat → Option (TagData Tid)
  fresh : Nat

variable {Tid Tag β : Type} [DecidableEq Tid] (T : TagTypes Tid Tag)

namespace TagHeap

/-- No node yet. -/
def new : TagHeap Tid := ⟨fun _ => none, 0⟩

variable (h : TagHeap Tid) (a : Nat)

/-- A changed node. -/
def set (n : TagData Tid) : TagHeap Tid :=
  { h with nodes := Function.update h.nodes a (some n) }

/-- A change of the node behind a pointer. -/
def modify (f : TagData Tid → TagData Tid) : Option (TagHeap Tid) :=
  (h.nodes a).map fun n => h.set a (f n)

/-- `CreateTagData`, with what the node is filled with. -/
def create (n : TagData Tid) : TagHeap Tid × Nat :=
  ({ h.set h.fresh n with fresh := h.fresh + 1 }, h.fresh)

def free : Option (TagHeap Tid) :=
  (h.nodes a).map fun _ => { h with nodes := Function.update h.nodes a none }

/-- `count--`. -/
def decCount : Option (TagHeap Tid) := h.modify a fun n => { n with count := n.count - 1 }

/-- `count++` behind a pointer, if there is a node. -/
def incCount : Option Nat → Option (TagHeap Tid)
  | none => some h
  | some a => h.modify a fun n => { n with count := n.count + 1 }

/-- The first node with a type. -/
def find (tid : Tid) : Nat → Option Nat → Option (Option Nat)
  | _, none => some none
  | 0, some _ => none
  | fuel + 1, some a => (h.nodes a).bind fun n =>
    if n.tid = tid then some (some a) else find tid fuel n.next

end TagHeap

/-- The heap and the `m_next` of a list. -/
abbrev TagState (Tid : Type) := TagHeap Tid × Option Nat

variable (st : TagState Tid)

/-- `*prevNext = q`. -/
def TagState.setNext (prevNext : Slot) (q : Option Nat) : Option (TagState Tid) :=
  match prevNext with
  | .root => some (st.1, q)
  | .node a => (st.1.modify a fun n => { n with next := q }).map (·, st.2)

abbrev COWWriter (Tid β : Type) := Bool → Nat → Slot → TagState Tid → Option (TagState Tid × β)

namespace PacketTagList

/-- Where the first loop of `COWTraverse` stops: at the end, at a shared node, or at the tag. -/
inductive Stop
  | missing
  | merge (prevNext : Slot) (cur : Nat)
  | target (prevNext : Slot) (cur : Nat)

/-- The first loop of `COWTraverse`. -/
def search (h : TagHeap Tid) (tid : Tid) : Nat → Slot → Option Nat → Option Stop
  | _, _, none => some .missing
  | 0, _, some _ => none
  | fuel + 1, prevNext, some cur => (h.nodes cur).bind fun n =>
    if n.count > 1 then some (.merge prevNext cur)
    else if n.tid = tid then some (.target prevNext cur)
    else search h tid fuel (.node cur) n.next

/-- The loop of `COWTraverse` that copies shared nodes, until it reaches the tag. -/
def copyUntil (tid : Tid) : Nat → TagState Tid → Slot → Nat → Option (TagState Tid × Slot × Nat)
  | 0, _, _, _ => none
  | fuel + 1, st, prevNext, cur => (st.1.nodes cur).bind fun n =>
    if n.tid = tid then some (st, prevNext, cur)
    else if n.count > 1 then
      (st.1.decCount cur).bind fun h =>
        let (h, copy) := h.create { n with count := 1 }
        n.next.bind fun next => (h.incCount (some next)).bind fun h =>
          (TagState.setNext (h, st.2) prevNext (some copy)).bind fun st =>
            copyUntil tid fuel st (.node copy) next
    else none

/-- `COWTraverse`, with what the writer gives if the tag is found. -/
def cowTraverse (tid : Tid) (writer : COWWriter Tid β) (st : TagState Tid) :
    Option (TagState Tid × Option β) :=
  (search st.1 tid st.1.fresh .root st.2).bind fun
    | .missing => some (st, none)
    | .target prevNext cur => (writer true cur prevNext st).map fun r => (r.1, some r.2)
    | .merge prevNext cur => (st.1.find tid st.1.fresh (some cur)).bind fun it =>
      if it = none then some (st, none)
      else (copyUntil tid st.1.fresh st prevNext cur).bind fun (st, prevNext, cur) =>
        (st.1.nodes cur).bind fun n =>
          if n.count > 1 then (writer false cur prevNext st).map fun r => (r.1, some r.2) else none

def removeWriter : COWWriter Tid Tag := fun preMerge cur prevNext st =>
  (st.1.nodes cur).bind fun n => (T.deserialize n.tid n.data).bind fun tag =>
    (st.setNext prevNext n.next).bind fun st =>
      if preMerge then (st.1.free cur).map fun h => ((h, st.2), tag)
      else (st.1.decCount cur).bind fun h => (h.incCount n.next).map fun h => ((h, st.2), tag)

def remove (tid : Tid) : Option (TagState Tid × Option Tag) :=
  cowTraverse tid (removeWriter T) st

/-- `Serialize` into the area of a node, which the `TagBuffer` does not let it leave. -/
def rewrite (data bytes : List UInt8) : Option (List UInt8) :=
  if bytes.length ≤ data.length then some (bytes ++ data.drop bytes.length) else none

def replaceWriter (tag : Tag) : COWWriter Tid Unit := fun preMerge cur prevNext st =>
  (st.1.nodes cur).bind fun n =>
    if preMerge then
      (rewrite n.data (T.serialize tag)).map fun data =>
        ((st.1.set cur { n with data }, st.2), ())
    else
      (st.1.decCount cur).bind fun h =>
        let (h, copy) := h.create ⟨n.next, 1, T.tid tag, T.serialize tag⟩
        (h.incCount n.next).bind fun h =>
          (TagState.setNext (h, st.2) prevNext (some copy)).map fun st => (st, ())

/-- `Add`; it asserts that there is no tag of the type. -/
def add (tag : Tag) : Option (TagState Tid) :=
  (st.1.find (T.tid tag) st.1.fresh st.2).bind fun it =>
    if it = none then
      let (h, head) := st.1.create ⟨st.2, 1, T.tid tag, T.serialize tag⟩
      some (h, some head)
    else none

def replace (tag : Tag) : Option (TagState Tid × Bool) :=
  (cowTraverse (T.tid tag) (replaceWriter T tag) st).bind fun r =>
    if r.2.isSome then some (r.1, true) else (add T r.1 tag).map (·, false)

def peek (tid : Tid) : Option (Option Tag) :=
  (st.1.find tid st.1.fresh st.2).bind fun
    | none => some none
    | some a => (st.1.nodes a).bind fun n => (T.deserialize tid n.data).map some

/-- `if (prev != nullptr) free(prev)`. -/
def freePrev (h : TagHeap Tid) : Option Nat → Option (TagHeap Tid)
  | none => some h
  | some a => h.free a

/-- The loop of `RemoveAll`; it gives the node that is still to be freed. -/
def removeLoop : Nat → TagHeap Tid → Option Nat → Option Nat → Option (TagHeap Tid × Option Nat)
  | _, h, prev, none => some (h, prev)
  | 0, _, _, some _ => none
  | fuel + 1, h, prev, some cur => (h.nodes cur).bind fun n =>
    (h.decCount cur).bind fun h =>
      if n.count - 1 > 0 then some (h, prev)
      else (freePrev h prev).bind fun h => removeLoop fuel h (some cur) n.next

def removeAll : Option (TagHeap Tid) :=
  (removeLoop st.1.fresh st.1 none st.2).bind fun r => freePrev r.1 r.2

/-- The copy constructor. -/
def copy (h : TagHeap Tid) (o : Option Nat) : Option (TagState Tid) := (h.incCount o).map (·, o)

/-- `operator=`. -/
def assign (o : Option Nat) : Option (TagState Tid) :=
  if st.2 = o then some st else (removeAll st).bind fun h => copy h o

end PacketTagList

/-- What a program does with its tag lists; they are numbered from the oldest one that is left. -/
inductive TagCall (Tid Tag : Type)
  | construct
  | copy (i : Nat)
  | assign (i j : Nat)
  | destroy (i : Nat)
  | add (i : Nat) (tag : Tag)
  | remove (i : Nat) (tid : Tid)
  | replace (i : Nat) (tag : Tag)
  | peek (i : Nat) (tid : Tid)

/-- The heap and the lists of a program. -/
structure TagLists (Tid : Type) where
  heap : TagHeap Tid
  heads : List (Option Nat)

namespace TagLists

/-- No list yet. -/
def new : TagLists Tid := ⟨TagHeap.new, []⟩

variable (w : TagLists Tid)

/-- A changed list. -/
def put (i : Nat) (st : TagState Tid) : TagLists Tid := ⟨st.1, w.heads.set i st.2⟩

/-- One call, with the tag that it gives and whether one was found. -/
def call : TagCall Tid Tag → Option (TagLists Tid × Option Tag × Bool)
  | .construct => some (⟨w.heap, w.heads ++ [none]⟩, none, false)
  | .copy i => w.heads[i]?.bind fun o =>
      (PacketTagList.copy w.heap o).map fun st => (⟨st.1, w.heads ++ [st.2]⟩, none, false)
  | .assign i j => w.heads[i]?.bind fun p => w.heads[j]?.bind fun o =>
      (PacketTagList.assign (w.heap, p) o).map fun st => (w.put i st, none, false)
  | .destroy i => w.heads[i]?.bind fun p =>
      (PacketTagList.removeAll (w.heap, p)).map fun h => (⟨h, w.heads.eraseIdx i⟩, none, false)
  | .add i tag => w.heads[i]?.bind fun p =>
      (PacketTagList.add T (w.heap, p) tag).map fun st => (w.put i st, none, false)
  | .remove i tid => w.heads[i]?.bind fun p =>
      (PacketTagList.remove T (w.heap, p) tid).map fun r => (w.put i r.1, r.2, r.2.isSome)
  | .replace i tag => w.heads[i]?.bind fun p =>
      (PacketTagList.replace T (w.heap, p) tag).map fun r => (w.put i r.1, none, r.2)
  | .peek i tid => w.heads[i]?.bind fun p =>
      (PacketTagList.peek T (w.heap, p) tid).map fun tag => (w, tag, tag.isSome)

end TagLists

/-- What the calls mean when every list is a function from types to tags. -/
def tagMaps (ms : List (Tid → Option Tag)) :
    TagCall Tid Tag → Option (List (Tid → Option Tag) × Option Tag × Bool)
  | .construct => some (ms ++ [(fun _ => none : Tid → Option Tag)], none, false)
  | .copy i => ms[i]?.map fun m => (ms ++ [m], none, false)
  | .assign i j => ms[i]?.bind fun _ => ms[j]?.map fun m => (ms.set i m, none, false)
  | .destroy i => ms[i]?.map fun _ => (ms.eraseIdx i, none, false)
  | .add i tag => ms[i]?.bind fun m =>
      if (m (T.tid tag)).isNone then some (ms.set i (Function.update m (T.tid tag) (some tag)),
        none, false)
      else none
  | .remove i tid => ms[i]?.map fun m =>
    (ms.set i (Function.update m tid none), m tid, (m tid).isSome)
  | .replace i tag => ms[i]?.map fun m =>
      (ms.set i (Function.update m (T.tid tag) (some tag)), none, (m (T.tid tag)).isSome)
  | .peek i tid => ms[i]?.map fun m => (ms, m tid, (m tid).isSome)

end OranNs3.Network
