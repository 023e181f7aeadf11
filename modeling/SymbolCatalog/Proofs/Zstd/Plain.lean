import SymbolCatalog.Wire.Lemmas
import SymbolCatalog.Zstd.Encode

/-! Plain frames: what holds the content as it is decompresses to the content, within the content's
length. So the frame that is kept of any content reads back. -/
namespace SymbolCatalog.Zstd

def Remains (data : Array UInt8) (pos : Nat) (bytes : Bytes) : Prop :=
  ∃ before : Bytes, data.toList = before ++ bytes ∧ before.length = pos

namespace Remains
variable {data : Array UInt8} {pos : Nat} {part rest : Bytes}

theorem whole (bytes : Bytes) : Remains bytes.toArray 0 bytes := ⟨[], rfl, rfl⟩

theorem after (here : Remains data pos (part ++ rest)) : Remains data (pos + part.length) rest := by
  obtain ⟨before, all, rfl⟩ := here
  exact ⟨before ++ part, by rw [all, List.append_assoc], List.length_append⟩

theorem next {b : UInt8} (here : Remains data pos (b :: rest)) : Remains data (pos + 1) rest := by
  obtain ⟨before, all, rfl⟩ := here
  exact ⟨before ++ [b], by rw [all, List.append_assoc, List.singleton_append], List.length_append⟩

theorem assoc {more : Bytes} (here : Remains data pos (part ++ more ++ rest)) :
    Remains data pos (part ++ (more ++ rest)) := by
  rwa [List.append_assoc] at here

theorem size (here : Remains data pos rest) : data.size = pos + rest.length := by
  obtain ⟨before, all, rfl⟩ := here
  rw [← Array.length_toList, all, List.length_append]

theorem extract (here : Remains data pos (part ++ rest)) :
    data.extract pos (pos + part.length) = part.toArray := by
  obtain ⟨before, all, rfl⟩ := here
  apply Array.toList_inj.1
  simp [all]

theorem byte {b : UInt8} (here : Remains data pos (b :: rest)) : byteAt data pos = b.toNat := by
  obtain ⟨before, all, rfl⟩ := here
  rw [byteAt, Array.getD_eq_getD_getElem?, ← Array.getElem?_toList, all]
  simp

end Remains

theorem wordAtSucc (data : Array UInt8) (pos width : Nat) :
    wordAt data pos (width + 1) = byteAt data pos + 256 * wordAt data (pos + 1) width := by
  have shift : ∀ i, pos + 1 + i = pos + (i + 1) := by omega
  simp only [wordAt, shift]
  rw [List.range_succ_eq_map, List.foldr_cons, List.foldr_map, Nat.add_comm, Nat.mul_comm]
  rfl

theorem Remains.spelled {data : Array UInt8} {pos : Nat} {part rest : Bytes}
    (here : Remains data pos (part ++ rest)) : wordAt data pos part.length = Bytes.toNatLE part := by
  induction part generalizing pos with
  | nil => rfl
  | cons b part ih =>
    rw [List.length_cons, wordAtSucc, here.byte, ih here.next, Bytes.toNatLE]

theorem Remains.word {data : Array UInt8} {pos width n : Nat} {rest : Bytes}
    (here : Remains data pos (Bytes.ofNatLE width n ++ rest)) (fits : n < 256 ^ width) :
    wordAt data pos width = n := by
  have spelled := here.spelled
  rwa [Bytes.length_ofNatLE, Bytes.toNatLE_ofNatLE_of_lt fits] at spelled

/-! The header of a frame that holds all of its content at once. -/

theorem contentSizeShape {n : Nat} (short : n < 2 ^ 64) : ∃ sort width stored, sort < 4 ∧
    width = (if sort = 0 then 1 else twoTo sort) ∧ stored < 256 ^ width ∧
    n = (if sort = 1 then stored + 256 else stored) ∧
    contentSize n = UInt8.ofNat (sort * 64 + 32) :: Bytes.ofNatLE width stored := by
  unfold contentSize
  split
  · exact ⟨0, 1, n, by decide, rfl, by omega, rfl, rfl⟩
  · split
    · exact ⟨1, 2, n - 256, by decide, rfl, by omega, by rw [if_pos rfl]; omega, rfl⟩
    · split
      · next lt => exact ⟨2, 4, n, by decide, rfl, lt, rfl, rfl⟩
      · exact ⟨3, 8, n, by decide, rfl, short, rfl, rfl⟩

def plainHeader (n : Nat) : FrameHeader := ⟨4 + (contentSize n).length, min n maxBlock, some n, false⟩

theorem readHeader {data : Array UInt8} {n : Nat} {rest : Bytes}
    (here : Remains data 0 (Bytes.ofNatLE 4 frameMagic ++ contentSize n ++ rest)) (short : n < 2 ^ 64)
    (more : 3 ≤ rest.length) :
    readFrameHeader data 0 = .ok (plainHeader n) := by
  obtain ⟨sort, width, stored, low, wide, fits, size, shape⟩ := contentSizeShape short
  rw [shape] at here
  have magic : wordAt data 0 4 = frameMagic := here.assoc.word (by decide)
  have field : Remains data 4 (UInt8.ofNat (sort * 64 + 32) :: (Bytes.ofNatLE width stored ++ rest)) :=
    here.assoc.after
  have descriptor : byteAt data 4 = sort * 64 + 32 := by
    rw [field.byte, UInt8.toNat_ofNat']
    omega
  have sized : Remains data 5 (Bytes.ofNatLE width stored ++ rest) := field.next
  have total : data.size = 5 + width + rest.length := by
    rw [sized.size, List.length_append, Bytes.length_ofNatLE]
    omega
  have word := sized.word fits
  have ids : #[0, 1, 2, 4].getD ((sort * 64 + 32) % 4) 0 = 0 := by
    rw [show (sort * 64 + 32) % 4 = 0 by omega]
    rfl
  have single : (sort * 64 + 32) / 32 % 2 = 1 := by omega
  have sorts : (sort * 64 + 32) / 64 = sort := by omega
  have reserved : (sort * 64 + 32) / 8 % 2 = 0 := by omega
  have plain : (sort * 64 + 32) / 4 % 2 = 0 := by omega
  have some_ : width ≠ 0 := by
    rw [wide]
    split
    · decide
    · rw [twoTo, Nat.shiftLeft_eq]
      have := Nat.two_pow_pos sort
      omega
  have enough : 5 + 0 + width + 3 ≤ data.size := by omega
  rw [readFrameHeader, magic, descriptor]
  simp only [Nat.zero_add, ids, single, sorts, reserved, plain, ← wide, word, if_true, some_, if_false,
    enough, ← size, decide_true]
  rw [plainHeader, shape, List.length_cons, Bytes.length_ofNatLE,
    show 4 + (width + 1) = 5 + 0 + width by omega]
  rfl

/-! Blocks that hold data as it is. -/

theorem readPlainBlock {data out : Array UInt8} {header : FrameHeader} {origin limit fuel pos : Nat}
    {memory : Memory} {isLast : Bool} {content rest : Bytes} (small : content.length ≤ maxBlock)
    (here : Remains data pos (blockHeader isLast 0 content.length ++ (content ++ rest)))
    (room : out.size + content.length ≤ limit) :
    readBlocks data header origin limit (fuel + 1) pos memory out =
      if isLast then .ok (out ++ content.toArray, pos + 3 + content.length)
      else readBlocks data header origin limit fuel (pos + 3 + content.length) memory
        (out ++ content.toArray) := by
  have low : (if isLast then 1 else 0 : Nat) < 2 := by split <;> decide
  have fits : content.length * 8 + 0 * 2 + (if isLast then 1 else 0) < 256 ^ 3 := by
    unfold maxBlock at small
    omega
  have word := here.word fits
  have body : Remains data (pos + 3) (content ++ rest) := by simpa [blockHeader] using here.after
  have total := body.size
  rw [List.length_append] at total
  have size : (content.length * 8 + 0 * 2 + if isLast then 1 else 0) / 8 = content.length := by omega
  have sort : (content.length * 8 + 0 * 2 + if isLast then 1 else 0) / 2 % 4 = 0 := by omega
  have last : (content.length * 8 + 0 * 2 + if isLast then 1 else 0) % 2 = if isLast then 1 else 0 := by
    omega
  have enough : pos + 3 ≤ data.size := by omega
  have inside : pos + 3 + content.length ≤ data.size := by omega
  rw [readBlocks, word]
  simp only [size, sort, last, body.extract, enough, inside, room, decide_true]
  cases isLast <;> rfl

theorem readPlainBlocks {data out : Array UInt8} {header : FrameHeader} {origin limit fuel pos : Nat}
    {memory : Memory} {content : Bytes} (here : Remains data pos (plainBlocks content))
    (room : out.size + content.length ≤ limit) (fueled : content.length < fuel) :
    readBlocks data header origin limit fuel pos memory out =
      .ok (out ++ content.toArray, data.size) := by
  induction content using plainBlocks.induct generalizing fuel pos out with
  | case1 content small =>
    obtain ⟨fuel, rfl⟩ : ∃ n, fuel = n + 1 := ⟨fuel - 1, by omega⟩
    rw [plainBlocks, if_pos small] at here
    have total := here.size
    rw [List.length_append, blockHeader, Bytes.length_ofNatLE, ← Nat.add_assoc] at total
    have first : Remains data pos (blockHeader true 0 content.length ++ (content ++ [])) := by
      rwa [List.append_nil]
    rw [readPlainBlock small first room, if_pos rfl, total]
  | case2 content large ih =>
    obtain ⟨fuel, rfl⟩ : ∃ n, fuel = n + 1 := ⟨fuel - 1, by omega⟩
    have full : (content.take maxBlock).length = maxBlock := by
      rw [List.length_take]
      omega
    have first : Remains data pos (blockHeader false 0 (content.take maxBlock).length ++
        (content.take maxBlock ++ plainBlocks (content.drop maxBlock))) := by
      rw [full]
      rw [plainBlocks, if_neg large] at here
      exact here.assoc
    have next : Remains data (pos + 3 + (content.take maxBlock).length) (plainBlocks (content.drop maxBlock)) :=
      Remains.after (by simpa [blockHeader] using first.after)
    have split : (content.take maxBlock).length + (content.drop maxBlock).length = content.length := by
      rw [← List.length_append, List.take_append_drop]
    have left : (out ++ (content.take maxBlock).toArray).size + (content.drop maxBlock).length ≤ limit := by
      simp only [Array.size_append, List.size_toArray]
      omega
    have shorter : (content.drop maxBlock).length < fuel := by
      unfold maxBlock at *
      omega
    have joined : (content.take maxBlock).toArray ++ (content.drop maxBlock).toArray = content.toArray := by
      simp
    rw [readPlainBlock (Nat.le_of_eq full) first (by omega), if_neg Bool.false_ne_true,
      ih next left shorter, Array.append_assoc, joined]

/-! The whole frame. -/

theorem longerHeader (n : Nat) : 2 ≤ (contentSize n).length := by
  unfold contentSize
  repeat' split
  all_goals simp

theorem longerBlocks (content : Bytes) : content.length + 3 ≤ (plainBlocks content).length := by
  induction content using plainBlocks.induct with
  | case1 content small =>
    rw [plainBlocks, if_pos small, List.length_append, blockHeader, Bytes.length_ofNatLE]
    omega
  | case2 content large ih =>
    rw [plainBlocks, if_neg large, List.length_append, List.length_append, List.length_take]
    rw [List.length_drop] at ih
    omega

theorem plainSize (content : Bytes) : content.length + 9 ≤ (plain content).length := by
  have wide := longerHeader content.length
  have long := longerBlocks content
  simp only [plain, List.length_append, Bytes.length_ofNatLE]
  omega

theorem readPlainFrame {content : Bytes} (short : content.length < 2 ^ 64) :
    readFrame (plain content).toArray 0 content.length #[] =
      .ok (content.toArray, (plain content).length) := by
  have here := Remains.whole (plain content)
  have header : readFrameHeader (plain content).toArray 0 = .ok (plainHeader content.length) :=
    readHeader here short (Nat.le_trans (Nat.le_add_left ..) (longerBlocks content))
  have blocks : Remains (plain content).toArray (plainHeader content.length).after (plainBlocks content) := by
    have := here.after
    rwa [List.length_append, Bytes.length_ofNatLE, Nat.zero_add] at this
  have long := plainSize content
  have enough : 0 + 9 ≤ (plain content).toArray.size := by
    rw [List.size_toArray]
    omega
  have read : readBlocks (plain content).toArray (plainHeader content.length) 0 content.length
      (plain content).toArray.size (plainHeader content.length).after {} #[] =
      .ok (#[] ++ content.toArray, (plain content).toArray.size) :=
    readPlainBlocks blocks (by simp) (by rw [List.size_toArray]; omega)
  rw [readFrame, header]
  simp only [enough, decide_true, require, if_true, bind, Except.bind, Array.size_empty, read]
  simp [plainHeader, pure, Except.pure]

theorem readPlain {content : Bytes} (short : content.length < 2 ^ 64) :
    decompress (plain content) content.length = .ok content := by
  have magic : wordAt (plain content).toArray 0 4 = frameMagic :=
    (Remains.whole (plain content)).assoc.word (by decide)
  have present : Early.generation? (plain content).toArray 0 = none := by
    rw [Early.generation?, magic]
    rfl
  have long := plainSize content
  obtain ⟨fuel, fueled⟩ : ∃ n, (plain content).length = n + 1 := ⟨(plain content).length - 1, by omega⟩
  have nonempty : 0 ≠ (plain content).toArray.size := by
    rw [List.size_toArray]
    omega
  have enough : 0 + 5 ≤ (plain content).toArray.size := by
    rw [List.size_toArray]
    omega
  have kept : ¬ frameMagic / 16 = skippableMagic / 16 := by decide
  rw [decompress, readFrames, if_neg nonempty, magic, present, if_neg kept, fueled]
  simp only [enough, decide_true, require, if_true, bind, Except.bind, readPlainFrame short]
  rw [readFrames, if_pos List.size_toArray.symm]
  rfl

theorem readSafely (effort : Nat) {content : Bytes} (short : content.length < 2 ^ 64) :
    (decompress (compressSafely effort content) content.length).toOption = some content := by
  unfold compressSafely
  dsimp only
  split
  · next same => exact same
  · rw [readPlain short]
    rfl

end SymbolCatalog.Zstd
