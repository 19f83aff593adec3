import Mathlib.Algebra.Order.Ring.Nat
import OranNs3.Lib.Writes

/-!
# The serialization of a packet

`Packet::GetSerializedSize` and `Packet::Serialize` (`src/src/network/model/packet.cc`), with those
of the five parts of a packet. A part is written behind a word for its length, and what follows
stands at a multiple of 4. `Serialize` guards each part by a running sum of the sizes of the parts,
without the length words (but for that of a nix-vector that is not there) and without the padding.
So it writes beyond `maxSize` where this is between the sum and the place that the part reaches
(`Safe`), and it succeeds where `maxSize` is between the sum of all parts and the size.
-/

namespace OranNs3.Network.Serial

open Writes List

variable (n : Nat)

/-- A word of 4 bytes. -/
def word : List UInt8 := (List.range 4).map fun i => UInt8.ofNat (n / 256 ^ i)

/-- The next multiple of 4. -/
def pad : Nat := (n + 3) / 4 * 4

/-! ## The parts -/

/-- `NixVector`. -/
structure NixVector where
  totalBitSize : UInt32
  used : UInt32
  nixVector : List UInt32
  epoch : UInt32
deriving DecidableEq

variable (v : NixVector)

def NixVector.getSerializedSize : Nat :=
  if v.totalBitSize = 0 then 4 else 4 + 4 + 4 * v.nixVector.length + 4

/-- `NixVector::Serialize`, whose only check is the first. -/
def NixVector.pieces : List Piece :=
  { counted := v.getSerializedSize, bytes := word v.totalBitSize.toNat, advance := 4 } ::
    if v.totalBitSize = 0 then []
    else (v.used :: v.nixVector ++ [v.epoch]).map fun n =>
      { counted := 0, bytes := word n.toNat, advance := 4 }

/-- A tag of a byte tag list. -/
structure ByteTagItem where
  hash : UInt32
  start : UInt32
  stop : UInt32
  data : List UInt8
deriving DecidableEq

/-- A tag of a packet tag list. -/
structure PacketTagItem where
  hash : UInt32
  data : List UInt8
deriving DecidableEq

/-- A word that is counted. -/
def wordPiece : Piece := { counted := 4, bytes := word n, advance := 4 }

/-- Data with its padding. -/
def dataPiece (data : List UInt8) : Piece :=
  { counted := pad data.length, bytes := data, advance := pad data.length }

/-- The increment of the number of tags, in the first word. -/
def countPiece (numberOfTags : Nat) : Piece :=
  { counted := 0, bytes := word numberOfTags, advance := 0, atStart := true }

/-- `ByteTagList::GetSerializedSize`. -/
def byteTagsSize (tags : List ByteTagItem) : Nat :=
  4 + (tags.map fun t => 4 + 3 * 4 + pad t.data.length).sum

/-- The loop of `ByteTagList::Serialize`. -/
def byteTagPieces : Nat → List ByteTagItem → List Piece
  | _, [] => []
  | n, t :: tags =>
    [wordPiece t.hash.toNat, wordPiece t.data.length, wordPiece t.start.toNat,
      wordPiece t.stop.toNat, dataPiece t.data, countPiece (n + 1)] ++ byteTagPieces (n + 1) tags

/-- `PacketTagList::GetSerializedSize`. -/
def packetTagsSize (tags : List PacketTagItem) : Nat :=
  4 + (tags.map fun t => 4 + 4 + pad t.data.length).sum

/-- The loop of `PacketTagList::Serialize`. -/
def packetTagPieces : Nat → List PacketTagItem → List Piece
  | _, [] => []
  | n, t :: tags =>
    [wordPiece t.data.length, wordPiece t.hash.toNat, dataPiece t.data, countPiece (n + 1)] ++
      packetTagPieces (n + 1) tags

/-- An item of the metadata: the name of its type, unless it is payload, and whether it is big. -/
structure MetadataItem where
  name : Option (List UInt8)
  isBig : Bool
  size : UInt32
  chunkUid : UInt16
  fragmentStart : UInt32
  fragmentEnd : UInt32
  packetUid : UInt64
deriving DecidableEq

/-- `PacketMetadata`; it has items only while metadata are enabled. -/
structure Metadata where
  enable : Bool
  packetUid : UInt64
  items : List MetadataItem
  items_nil : enable = false → items = []

variable (i : MetadataItem)

/-- The bytes of an item. -/
def MetadataItem.getSerializedSize : Nat :=
  (match i.name with
    | none => 4
    | some name => 4 + name.length) + (1 + 4 + 2 + 4 + 4 + 8)

variable (m : Metadata)

def Metadata.getSerializedSize : Nat :=
  if m.enable then 8 + (m.items.map MetadataItem.getSerializedSize).sum else 8

/-- `AddToRaw`. -/
def rawPiece (bytes : List UInt8) : Piece :=
  { counted := bytes.length, bytes, advance := bytes.length }

/-- The name of an item, behind its length. -/
def namePieces : Option (List UInt8) → List Piece
  | none => [rawPiece (word 0)]
  | some name => [rawPiece (word name.length), rawPiece name]

/-- A number of 8 bytes. -/
def doubleWord : List UInt8 := word n ++ word (n / 2 ^ 32)

/-- The pieces of an item. -/
def MetadataItem.pieces : List Piece :=
  namePieces i.name ++ [rawPiece [if i.isBig then 1 else 0], rawPiece (word i.size.toNat),
    rawPiece ((word i.chunkUid.toNat).take 2), rawPiece (word i.fragmentStart.toNat),
    rawPiece (word i.fragmentEnd.toNat),
    rawPiece (doubleWord i.packetUid.toNat)]

/-- `PacketMetadata::Serialize`. -/
def Metadata.pieces : List Piece :=
  rawPiece (doubleWord m.packetUid.toNat) :: m.items.flatMap MetadataItem.pieces

/-- `Buffer`: its bytes before and behind the zero area. -/
structure Buffer where
  dataStart : List UInt8
  zeroArea : Nat
  dataEnd : List UInt8
deriving DecidableEq

variable (b : Buffer)

def Buffer.getSerializedSize : Nat :=
  4 + 4 + pad b.dataStart.length + 4 + pad b.dataEnd.length

/-- `Buffer::Serialize`, which does not move the pointer at its end. -/
def Buffer.pieces : List Piece :=
  [wordPiece b.zeroArea, wordPiece b.dataStart.length, dataPiece b.dataStart,
    wordPiece b.dataEnd.length, { dataPiece b.dataEnd with advance := 0 }]

/-! ## The packet -/

/-- `Packet`. -/
structure Packet where
  nixVector : Option NixVector
  byteTags : List ByteTagItem
  packetTags : List PacketTagItem
  metadata : Metadata
  buffer : Buffer

/-- A part of a packet: what is added to the running sum, its length word, its size and what it
writes. -/
structure Part where
  counted : Nat
  length : Nat
  size : Nat
  pieces : List Piece

/-- A part that is there. -/
def Part.ofPieces (size : Nat) (pieces : List Piece) : Part := ⟨size, size + 4, size, pieces⟩

namespace Packet

variable (p : Packet)

/-- The parts in the order in which they are written. -/
def parts : List Part :=
  [match p.nixVector with
    | none => ⟨4, 4, 0, []⟩
    | some v => .ofPieces v.getSerializedSize v.pieces,
    .ofPieces (byteTagsSize p.byteTags) (wordPiece 0 :: byteTagPieces 0 p.byteTags),
    .ofPieces (packetTagsSize p.packetTags) (wordPiece 0 :: packetTagPieces 0 p.packetTags),
    .ofPieces p.metadata.getSerializedSize p.metadata.pieces,
    .ofPieces p.buffer.getSerializedSize p.buffer.pieces]

/-- `GetSerializedSize`, as a number without wrapping. -/
def getSerializedSize : Nat :=
  (match p.nixVector with
    | none => 4
    | some v => pad v.getSerializedSize + 4) +
    (pad (packetTagsSize p.packetTags) + 4) + (pad (byteTagsSize p.byteTags) + 4) +
    (pad p.metadata.getSerializedSize + 4) + (pad p.buffer.getSerializedSize + 4)

end Packet

/-- A part is written; the running sum with what has been written so far. -/
def writePart (maxSize : Nat) (state : Nat × Out) (part : Part) : Nat × Out :=
  if state.2.ok then
    let size := (state.1 + part.counted) % 2 ^ 32
    if size > maxSize then (size, { state.2 with ok := false })
    else
      let out := state.2.put 0 { counted := 4, bytes := word part.length, advance := 4 }
      (size, { run part.size out.p 0 part.pieces out with p := out.p + pad part.size })
  else state

def Packet.serialize (p : Packet) (maxSize : Nat) : Nat × List Writes.Write :=
  let out := (p.parts.foldl (writePart maxSize) (0, {})).2
  (if out.ok then 1 else 0, out.writes)

/-! ## How far the parts reach -/

/-- The place of a part, with its length word. -/
def Part.len (s : Part) : Nat := 4 + pad s.size

/-- How far a part is written. -/
def Part.reach (s : Part) : Nat := 4 + Writes.reach 0 s.pieces

/-- The writes of parts from `p` on are below a limit: each part whose running sum is not above
`maxSize` is. -/
def Safe (limit maxSize : Nat) : Nat → Nat → List Part → Prop
  | _, _, [] => True
  | sum, p, s :: l =>
    sum + s.counted ≤ maxSize → p + s.reach ≤ limit ∧
      Safe limit maxSize (sum + s.counted) (p + s.len) l

/-- What a part counts is at most its size, and it is written within its place. -/
structure Part.Sized (s : Part) : Prop where
  counted_le : (s.pieces.map Piece.counted).sum ≤ s.size
  reach_le : Writes.reach 0 s.pieces ≤ pad s.size

section
variable {limit maxSize sum d p : Nat} {s : Part} {l : List Part} {o : Out}

theorem le_pad : n ≤ pad n := by
  rw [pad]
  omega

@[simp]
theorem length_word : (word n).length = 4 := by
  rw [word, length_map, length_range]

@[simp]
theorem word_ne_nil : word n ≠ [] := ne_nil_of_length_pos (by rw [length_word]; omega)

theorem writePart_eq (hs : s.Sized) (ho : o.ok = true) (hsum : sum + s.counted ≤ maxSize)
    (hmax : maxSize < 2 ^ 32) (hsize : s.size < 2 ^ 32) :
    writePart maxSize (sum, o) s = (sum + s.counted,
        { puts (o.p + 4) s.pieces (o.put 0 ⟨4, word s.length, 4, false⟩) with p :=
          o.p + s.len }) := by
  have hmod : (sum + s.counted) % 2 ^ 32 = sum + s.counted := Nat.mod_eq_of_lt (by omega)
  have hrun : run s.size (o.p + 4) 0 s.pieces (o.put 0 ⟨4, word s.length, 4, false⟩) =
      puts (o.p + 4) s.pieces (o.put 0 ⟨4, word s.length, 4, false⟩) :=
    run_eq (by rw [Nat.zero_add]; exact hs.counted_le) hsize
  rw [writePart, if_pos ho, hmod, if_neg (by omega), ← hrun, Part.len, ← Nat.add_assoc]
  rfl

theorem within_part :
    Within limit (puts (o.p + 4) s.pieces (o.put 0 ⟨4, word s.length, 4, false⟩)).writes ↔
      Within limit o.writes ∧ o.p + s.reach ≤ limit := by
  have hput : (o.put 0 ⟨4, word s.length, 4, false⟩).writes = o.writes ++ [⟨o.p, word s.length⟩] :=
    rfl
  have hp : (o.put 0 ⟨4, word s.length, 4, false⟩).p = o.p + 4 := rfl
  rw [within_puts (by rw [hp]), hp, Nat.sub_self, hput, within_append, within_singleton,
    length_word, Part.reach, and_assoc]
  refine and_congr_right fun _ => ?_
  rw [or_iff_right (word_ne_nil _)]
  dsimp only
  omega

theorem writeParts_stopped : ∀ {l : List Part} {state : Nat × Out}, state.2.ok = false →
    l.foldl (writePart maxSize) state = state
  | [], _, _ => rfl
  | s :: l, state, h => by
    have hsame : writePart maxSize state s = state := by rw [writePart, if_neg (by rw [h]; decide)]
    rw [foldl_cons, hsame, writeParts_stopped h]

/-- What the parts write, by induction on them: all is well if their sum is not above `maxSize`, and
they are below a limit if they are safe. -/
theorem writeParts : ∀ {l : List Part} {sum : Nat} {o : Out}, (∀ s ∈ l, s.Sized ∧ s.size < 2 ^ 32) →
    sum + (l.map Part.counted).sum < 2 ^ 32 → maxSize < 2 ^ 32 → o.ok = true → sum ≤ maxSize →
    ((l.foldl (writePart maxSize) (sum, o)).2.ok = true ↔
      sum + (l.map Part.counted).sum ≤ maxSize) ∧
        (Within limit (l.foldl (writePart maxSize) (sum, o)).2.writes ↔ Within limit o.writes ∧
          Safe limit maxSize sum o.p l)
  | [], sum, o, _, _, _, ho, hle => by
    refine ⟨?_, (and_iff_left trivial).symm⟩
    simp only [foldl_nil, map_nil, sum_nil, Nat.add_zero, ho, hle]
  | s :: l, sum, o, hl, hbound, hmax, ho, hle => by
    rw [map_cons, sum_cons, ← Nat.add_assoc] at hbound ⊢
    rw [foldl_cons, Safe]
    by_cases hsum : sum + s.counted ≤ maxSize
    · obtain ⟨hs, hsize⟩ := hl s mem_cons_self
      rw [writePart_eq hs ho hsum hmax hsize]
      have hrest := @writeParts l (sum + s.counted)
        { puts (o.p + 4) s.pieces (o.put 0 ⟨4, word s.length, 4, false⟩) with p := o.p + s.len }
        (fun s' h => hl s' (mem_cons_of_mem _ h)) hbound hmax (puts_ok.trans ho) hsum
      refine ⟨hrest.1, hrest.2.trans ?_⟩
      rw [within_part, and_assoc, forall_prop_of_true hsum]
    · have hstop : writePart maxSize (sum, o) s = (sum + s.counted, { o with ok := false }) := by
        have hmod : (sum + s.counted) % 2 ^ 32 = sum + s.counted := Nat.mod_eq_of_lt (by omega)
        rw [writePart, if_pos ho, hmod, if_pos (by omega)]
      rw [hstop, writeParts_stopped rfl]
      refine ⟨⟨fun h => absurd h Bool.false_ne_true, fun h => absurd h (by omega)⟩, ?_⟩
      exact (and_iff_left fun h => absurd h hsum).symm

theorem safe_of_len : ∀ {l : List Part} {sum p : Nat}, (∀ s ∈ l, s.Sized) →
    p + (l.map Part.len).sum ≤ limit → Safe limit maxSize sum p l
  | [], _, _, _, _ => trivial
  | s :: l, sum, p, hl, hle => by
    rw [map_cons, sum_cons, ← Nat.add_assoc] at hle
    intro _
    have hreach := (hl s mem_cons_self).reach_le
    refine ⟨?_, safe_of_len (fun s' h => hl s' (mem_cons_of_mem _ h)) hle⟩
    rw [Part.len] at hle
    rw [Part.reach]
    omega

/-- A piece that counts how far it moves the pointer, and is not longer. -/
def Plain (piece : Piece) : Prop :=
  piece.advance = piece.counted ∧ piece.bytes.length ≤ if piece.atStart then 4 else piece.advance

theorem sized_of_plain {size : Nat} {first : Piece} {rest : List Piece} (hfirst : Plain first)
    (hstart : first.atStart = false) (hword : 4 ≤ first.advance)
    (hrest : ∀ piece ∈ rest, Plain piece)
    (hsum : first.counted + (rest.map Piece.counted).sum = size) :
    (Part.ofPieces size (first :: rest)).Sized := by
  have hadvance : rest.map Piece.advance = rest.map Piece.counted := map_congr_left fun piece h =>
    (hrest piece h).1
  have hreach : Writes.reach first.advance rest ≤ first.advance + (rest.map Piece.advance).sum := by
    refine reach_le fun piece h => (hrest piece h).2.trans ?_
    split
    · exact hword
    · exact le_rfl
  have hlength : first.bytes.length ≤ first.advance := by
    have hle := hfirst.2
    rwa [hstart, if_neg Bool.false_ne_true] at hle
  rw [hadvance, hfirst.1, hsum] at hreach
  rw [hfirst.1] at hlength
  constructor
  · rw [Part.ofPieces, map_cons, sum_cons]
    exact hsum.le
  · refine le_trans ?_ (le_pad size)
    rw [Part.ofPieces, Writes.reach, Nat.zero_add, hfirst.1, hstart, if_neg Bool.false_ne_true,
    Nat.zero_add]
    refine max_le ?_ hreach
    split <;> omega

/-! ## The parts of a packet -/

theorem plain_word : Plain (wordPiece n) := ⟨rfl, (length_word n).le⟩

theorem plain_data (data : List UInt8) : Plain (dataPiece data) := ⟨rfl, le_pad _⟩

theorem plain_count : Plain (countPiece n) := ⟨rfl, (length_word n).le⟩

theorem plain_raw (bytes : List UInt8) : Plain (rawPiece bytes) := ⟨rfl, le_rfl⟩

theorem plain_byteTags : ∀ {n : Nat} {tags : List ByteTagItem}, ∀ piece ∈ byteTagPieces n tags,
    Plain piece
  | _, [], _, h => absurd h not_mem_nil
  | n, t :: tags, piece, h => by
    rw [byteTagPieces, mem_append] at h
    rcases h with h | h
    · simp only [mem_cons, not_mem_nil, or_false] at h
      rcases h with rfl | rfl | rfl | rfl | rfl | rfl
      · exact plain_word _
      · exact plain_word _
      · exact plain_word _
      · exact plain_word _
      · exact plain_data _
      · exact plain_count _
    · exact plain_byteTags piece h

theorem plain_packetTags : ∀ {n : Nat} {tags : List PacketTagItem},
    ∀ piece ∈ packetTagPieces n tags, Plain piece
  | _, [], _, h => absurd h not_mem_nil
  | n, t :: tags, piece, h => by
    rw [packetTagPieces, mem_append] at h
    rcases h with h | h
    · simp only [mem_cons, not_mem_nil, or_false] at h
      rcases h with rfl | rfl | rfl | rfl
      · exact plain_word _
      · exact plain_word _
      · exact plain_data _
      · exact plain_count _
    · exact plain_packetTags piece h

theorem counted_byteTags : ∀ {n : Nat} {tags : List ByteTagItem},
    4 + ((byteTagPieces n tags).map Piece.counted).sum = byteTagsSize tags
  | _, [] => rfl
  | n, t :: tags => by
    have hrest := @counted_byteTags (n + 1) tags
    rw [byteTagsSize] at hrest ⊢
    rw [byteTagPieces, map_append, sum_append, map_cons, sum_cons]
    simp only [map_cons, map_nil, sum_cons, sum_nil, wordPiece, dataPiece, countPiece]
    omega

theorem counted_packetTags : ∀ {n : Nat} {tags : List PacketTagItem},
    4 + ((packetTagPieces n tags).map Piece.counted).sum = packetTagsSize tags
  | _, [] => rfl
  | n, t :: tags => by
    have hrest := @counted_packetTags (n + 1) tags
    rw [packetTagsSize] at hrest ⊢
    rw [packetTagPieces, map_append, sum_append, map_cons, sum_cons]
    simp only [map_cons, map_nil, sum_cons, sum_nil, wordPiece, dataPiece, countPiece]
    omega

theorem sized_byteTags (tags : List ByteTagItem) :
    (Part.ofPieces (byteTagsSize tags) (wordPiece 0 :: byteTagPieces 0 tags)).Sized :=
  sized_of_plain (plain_word 0) rfl le_rfl plain_byteTags counted_byteTags

theorem sized_packetTags (tags : List PacketTagItem) :
    (Part.ofPieces (packetTagsSize tags) (wordPiece 0 :: packetTagPieces 0 tags)).Sized :=
  sized_of_plain (plain_word 0) rfl le_rfl plain_packetTags counted_packetTags

@[simp]
theorem length_doubleWord : (doubleWord n).length = 8 := by
  rw [doubleWord, length_append, length_word, length_word]

theorem plain_item {i : MetadataItem} {piece : Piece} (h : piece ∈ i.pieces) : Plain piece := by
  have hraw : ∃ bytes, piece = rawPiece bytes := by
    rw [MetadataItem.pieces, mem_append] at h
    rcases h with h | h
    · cases hname : i.name with
      | none =>
        rw [hname] at h
        exact ⟨_, List.mem_singleton.mp h⟩
      | some name =>
        rw [hname] at h
        rcases List.mem_cons.mp h with h | h
        · exact ⟨_, h⟩
        · exact ⟨_, List.mem_singleton.mp h⟩
    · simp only [mem_cons, not_mem_nil, or_false] at h
      rcases h with h | h | h | h | h | h <;> exact ⟨_, h⟩
  obtain ⟨bytes, rfl⟩ := hraw
  exact plain_raw bytes

theorem counted_item : (i.pieces.map Piece.counted).sum = i.getSerializedSize := by
  rw [MetadataItem.pieces, MetadataItem.getSerializedSize]
  cases i.name with
  | none => simp [namePieces, rawPiece]
  | some name =>
    simp [namePieces, rawPiece]
    omega

theorem counted_items : ∀ {items : List MetadataItem},
    ((items.flatMap MetadataItem.pieces).map Piece.counted).sum =
    (items.map MetadataItem.getSerializedSize).sum
  | [] => rfl
  | i :: items => by
    rw [flatMap_cons, map_append, sum_append, counted_items, counted_item, map_cons, sum_cons]

theorem sized_metadata : (Part.ofPieces m.getSerializedSize m.pieces).Sized := by
  have hplain : ∀ piece ∈ m.items.flatMap MetadataItem.pieces, Plain piece := by
    intro piece h
    obtain ⟨i, _, hi⟩ := List.mem_flatMap.mp h
    exact plain_item hi
  have hsum : 8 + ((m.items.flatMap MetadataItem.pieces).map Piece.counted).sum =
    m.getSerializedSize := by
    rw [Metadata.getSerializedSize, counted_items]
    split_ifs with henable
    · rfl
    · rw [m.items_nil (Bool.eq_false_iff.mpr henable)]
      rfl
  have hfirst : (rawPiece (doubleWord m.packetUid.toNat)).counted = 8 := length_doubleWord _
  have hword : 4 ≤ (rawPiece (doubleWord m.packetUid.toNat)).advance := by
    rw [rawPiece, length_doubleWord]
    exact (by decide : 4 ≤ 8)
  exact sized_of_plain (plain_raw _) rfl hword hplain (by rw [hfirst, hsum])

theorem sized_nixVector : (Part.ofPieces v.getSerializedSize v.pieces).Sized := by
  have hcounted : (v.pieces.map Piece.counted).sum = v.getSerializedSize := by
    rw [NixVector.pieces, map_cons, sum_cons]
    split_ifs
    · rfl
    · rw [map_map]
      simp [Function.comp_def]
  have hadvance : (v.pieces.map Piece.advance).sum = v.getSerializedSize := by
    rw [NixVector.pieces, NixVector.getSerializedSize, map_cons, sum_cons]
    split_ifs
    · rfl
    · rw [map_map]
      simp [Function.comp_def]
      omega
  have hpiece : ∀ piece ∈ v.pieces,
    piece.bytes.length ≤ if piece.atStart then 0 else piece.advance := by
    intro piece h
    rcases List.mem_cons.mp h with rfl | h
    · exact (length_word _).le
    · split_ifs at h
      · exact absurd h not_mem_nil
      · obtain ⟨n, _, rfl⟩ := List.mem_map.mp h
        exact (length_word _).le
  refine ⟨hcounted.le, ?_⟩
  calc Writes.reach 0 v.pieces ≤ 0 + (v.pieces.map Piece.advance).sum := reach_le hpiece
    _ = v.getSerializedSize := by rw [hadvance, Nat.zero_add]
    _ ≤ pad v.getSerializedSize := le_pad _

theorem sized_none : (⟨4, 4, 0, []⟩ : Part).Sized := ⟨le_rfl, le_rfl⟩

theorem reach_data {d : Nat} {data : List UInt8} :
    (if data = [] then 0 else d + data.length) ≤ d + pad data.length := by
  have := le_pad data.length
  split <;> omega

theorem reach_buffer :
    Writes.reach 0 b.pieces ≤ b.getSerializedSize ∧
      b.getSerializedSize < Writes.reach 0 b.pieces + 4 := by
  have hstart := @reach_data 8 b.dataStart
  have hend := @reach_data (8 + pad b.dataStart.length + 4) b.dataEnd
  have hreach : Writes.reach 0 b.pieces =
      max 4 (max 8 (max (if b.dataStart = [] then 0 else 8 + b.dataStart.length)
      (max (8 + pad b.dataStart.length + 4)
        (if b.dataEnd = [] then 0 else 8 + pad b.dataStart.length + 4 + b.dataEnd.length)))) := by
    simp [Buffer.pieces, Writes.reach, wordPiece, dataPiece]
  have hlast : pad b.dataEnd.length < b.dataEnd.length + 4 := by
    rw [pad]
    omega
  rw [hreach, Buffer.getSerializedSize]
  constructor
  · omega
  · by_cases hnil : b.dataEnd = []
    · have hzero : pad b.dataEnd.length = 0 := by rw [hnil]; rfl
      rw [if_pos hnil]
      omega
    · rw [if_neg hnil]
      omega

theorem sized_buffer : (Part.ofPieces b.getSerializedSize b.pieces).Sized := by
  refine ⟨?_, (reach_buffer b).1.trans (le_pad _)⟩
  simp only [Part.ofPieces, Buffer.pieces, Buffer.getSerializedSize, map_cons, map_nil, sum_cons,
    sum_nil, wordPiece, dataPiece]
  omega

namespace Packet

variable (p : Packet)

theorem getSerializedSize_eq : p.getSerializedSize = (p.parts.map Part.len).sum := by
  have hnix : (match p.nixVector with
      | none => 4
      | some v => pad v.getSerializedSize + 4) = Part.len (match p.nixVector with
      | none => ⟨4, 4, 0, []⟩
      | some v => .ofPieces v.getSerializedSize v.pieces) := by
    cases p.nixVector with
    | none => rfl
    | some v => exact Nat.add_comm _ _
  rw [getSerializedSize, hnix]
  simp only [parts, map_cons, map_nil, sum_cons, sum_nil]
  simp only [Part.len, Part.ofPieces]
  omega

theorem sized_parts : ∀ s ∈ p.parts, s.Sized := by
  simp only [parts, forall_mem_cons, not_mem_nil, false_implies, implies_true, and_true]
  refine ⟨?_, sized_byteTags _, sized_packetTags _, sized_metadata _, sized_buffer _⟩
  cases p.nixVector with
  | none => exact sized_none
  | some v => exact sized_nixVector v

theorem counted_le_len : ∀ s ∈ p.parts, s.counted ≤ s.len := by
  have hofPieces (size : Nat) (pieces : List Piece) : (Part.ofPieces size pieces).counted ≤
    (Part.ofPieces size pieces).len :=
    (le_pad size).trans (Nat.le_add_left _ _)
  simp only [parts, forall_mem_cons, not_mem_nil, false_implies, implies_true, and_true]
  refine ⟨?_, hofPieces _ _, hofPieces _ _, hofPieces _ _, hofPieces _ _⟩
  cases p.nixVector with
  | none => exact le_rfl
  | some v => exact hofPieces _ _

theorem sum_counted_le : (p.parts.map Part.counted).sum ≤ p.getSerializedSize := by
  rw [getSerializedSize_eq]
  exact sum_le_sum p.counted_le_len

theorem Safe.last {limit : Nat} {p : Packet} (h : Safe limit p.getSerializedSize 0 0 p.parts) :
    p.getSerializedSize < limit + 4 := by
  have hsum := p.sum_counted_le
  have hsize := p.getSerializedSize_eq
  have hbuffer := (reach_buffer p.buffer).2
  have hpad : pad p.buffer.getSerializedSize = p.buffer.getSerializedSize := by
    simp only [Buffer.getSerializedSize, pad]
    omega
  revert h
  simp only [parts, Safe, map_cons, map_nil, sum_cons, sum_nil] at hsum hsize ⊢
  intro h
  obtain ⟨_, h⟩ := h (by omega)
  obtain ⟨_, h⟩ := h (by omega)
  obtain ⟨_, h⟩ := h (by omega)
  obtain ⟨_, h⟩ := h (by omega)
  obtain ⟨hlast, _⟩ := h (by omega)
  simp only [Part.reach, Part.len, Part.ofPieces] at hlast hsize
  omega

/-- What `Serialize` does: it succeeds if the running sum of all parts is not above `maxSize`, and
its writes are below a limit where the parts are safe. -/
theorem serialize_spec (hsize : p.getSerializedSize < 2 ^ 32) (limit : Nat) {maxSize : Nat}
    (hmax : maxSize < 2 ^ 32) :
    ((p.serialize maxSize).1 = 1 ↔ (p.parts.map Part.counted).sum ≤ maxSize) ∧
      ((p.serialize maxSize).1 = 0 ↔ maxSize < (p.parts.map Part.counted).sum) ∧
      (Within limit (p.serialize maxSize).2 ↔ Safe limit maxSize 0 0 p.parts) := by
  have hparts : ∀ s ∈ p.parts, s.Sized ∧ s.size < 2 ^ 32 := by
    intro s hs
    have hle : s.len ≤ p.getSerializedSize := by
      rw [getSerializedSize_eq]
      exact le_sum_of_mem (mem_map_of_mem hs)
    have hpad := le_pad s.size
    rw [Part.len] at hle
    exact ⟨p.sized_parts s hs, by omega⟩
  have hsum : 0 + (p.parts.map Part.counted).sum < 2 ^ 32 := by
    have := p.sum_counted_le
    omega
  obtain ⟨hok, hwithin⟩ :=
    @writeParts limit maxSize p.parts 0 {} hparts hsum hmax rfl (Nat.zero_le maxSize)
  rw [Nat.zero_add] at hok
  have hnil : Within limit ({} : Out).writes := fun w h => absurd h not_mem_nil
  rw [serialize]
  dsimp only
  refine ⟨?_, ?_, hwithin.trans (and_iff_right hnil)⟩
  · rw [← hok]
    split_ifs with h <;> simp [h]
  · rw [← not_le, ← hok]
    split_ifs with h <;> simp [h]

theorem safe_of_fits {maxSize : Nat} (h : p.getSerializedSize ≤ maxSize) :
    Safe maxSize maxSize 0 0 p.parts :=
  safe_of_len p.sized_parts (by rwa [Nat.zero_add, ← getSerializedSize_eq])

/-- `Serialize` writes only below `maxSize`, returns 0 where the packet does not fit, and succeeds
where `maxSize` is the size, if and only if the parts that the running sum lets through are below
`maxSize`, and it lets all of them through only where the packet fits. -/
theorem serialize_iff (p : Packet) (maxSize : UInt32) (hsize : p.getSerializedSize < 2 ^ 32) :
    ((Within maxSize.toNat (p.serialize maxSize.toNat).2 ∧
      (maxSize.toNat < p.getSerializedSize → (p.serialize maxSize.toNat).1 = 0) ∧
      (maxSize.toNat = p.getSerializedSize → (p.serialize maxSize.toNat).1 = 1 ∧
        ¬ Within (p.getSerializedSize - 4) (p.serialize maxSize.toNat).2)) ↔
    Safe maxSize.toNat maxSize.toNat 0 0 p.parts ∧
      ((p.parts.map Part.counted).sum ≤ maxSize.toNat → p.getSerializedSize ≤ maxSize.toNat)) ∧
    (p.getSerializedSize ≤ maxSize.toNat → Safe maxSize.toNat maxSize.toNat 0 0 p.parts) := by
  have hmax := maxSize.toNat_lt
  obtain ⟨hone, hzero, hwithin⟩ := p.serialize_spec hsize maxSize.toNat hmax
  obtain ⟨_, _, hlast⟩ := p.serialize_spec hsize (p.getSerializedSize - 4) hmax
  have hsum := p.sum_counted_le
  rw [hwithin, hone, hzero, hlast]
  refine ⟨and_congr_right fun _ => ⟨?_, fun hfit => ⟨?_, ?_⟩⟩, p.safe_of_fits⟩
  · rintro ⟨hfit, _⟩ hle
    by_contra hlt
    have := hfit (by omega)
    omega
  · intro hlt
    by_contra hle
    have := hfit (by omega)
    omega
  · intro heq
    refine ⟨by omega, fun hsafe => ?_⟩
    rw [heq] at hsafe
    have hfour : 4 ≤ p.getSerializedSize := by
      rw [getSerializedSize]
      omega
    have := Safe.last hsafe
    omega

/-- A packet without a nix-vector, tags and metadata, of 5 bytes. -/
def small : Packet := ⟨none, [], [], ⟨false, 7, [], fun _ => rfl⟩, ⟨[1, 2, 3, 4, 5], 0, []⟩⟩

/-- The packet in a buffer of its size, 56. -/
theorem serialize_iff_small : small.getSerializedSize < 2 ^ 32 ∧
    Within 56 (small.serialize 56).2 ∧ ¬ Within 52 (small.serialize 56).2 ∧
      (small.serialize 56).1 = 1 := by
  have hsize : small.getSerializedSize = 56 := by decide
  have hlt : small.getSerializedSize < 2 ^ 32 := by
    rw [hsize]
    decide
  have hspec := serialize_iff small 56 hlt
  rw [hsize] at hspec
  obtain ⟨hin, _, hend⟩ := hspec.1.mpr ⟨hspec.2 le_rfl, fun _ => le_rfl⟩
  exact ⟨hlt, hin, (hend rfl).2, (hend rfl).1⟩

/-- The packet in a buffer of 40 bytes, which it does not fit: its writes go beyond them and it
succeeds. -/
theorem serialize_overruns : small.getSerializedSize = 56 ∧ (small.serialize 40).1 = 1 ∧
    ¬ Within 40 (small.serialize 40).2 := by
  refine ⟨by decide, by decide, ?_⟩
  intro h
  have hmem : (⟨40, word 5⟩ : Writes.Write) ∈ (small.serialize 40).2 := by decide
  exact absurd (h _ hmem 0 (by decide)) (by decide)

end Packet

end

end OranNs3.Network.Serial
