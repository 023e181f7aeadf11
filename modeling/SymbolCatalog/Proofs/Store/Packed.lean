import SymbolCatalog.Proofs.Zstd.Plain
import SymbolCatalog.Store.Packed

/-! Packed data: a frame holds the data or something shorter that gives it back, so unpacking is the
inverse of packing, at every level and under any codec that loses nothing. -/
namespace SymbolCatalog

theorem Codec.zstdLossless : Codec.zstd.Lossless := by
  intro effort data _ _ short
  exact ⟨Zstd.compressSafely effort data, rfl, Zstd.readSafely effort (by omega)⟩

theorem CompressionLevel.toIntMax (a b : Int32) : (max a b).toInt = max a.toInt b.toInt := by
  change (if a ≤ b then b else a).toInt = _
  simp only [Int32.le_iff_toInt_le]
  split <;> omega

theorem CompressionLevel.toIntMin (a b : Int32) : (min a b).toInt = min a.toInt b.toInt := by
  change (if a ≤ b then a else b).toInt = _
  simp only [Int32.le_iff_toInt_le]
  split <;> omega

theorem CompressionLevel.effortBounds {level : CompressionLevel} {effort : Int32}
    (asked : level.effort? = some effort) : 1 ≤ effort.toNatClampNeg ∧ effort.toNatClampNeg ≤ 22 := by
  cases level with
  | off => cases asked
  | fast | balanced | maximum =>
    cases asked
    decide
  | custom level =>
    cases asked
    have least : minEffort.toInt = 1 := rfl
    have most : maxEffort.toInt = 22 := rfl
    rw [← Int32.toNat_toInt, toIntMax, toIntMin, least, most]
    omega

namespace Packed
variable {codec : Codec} {level : CompressionLevel} {data : Bytes}

theorem compressedBack (lossless : codec.Lossless) (level : CompressionLevel) (short : data.length < 0x100000000) :
    ∃ body?, compressed? codec level data = .ok body? ∧
      ∀ body ∈ body?, codec.decompress body data.length = some data := by
  cases asked : level.effort? with
  | none =>
    refine ⟨none, ?_, nofun⟩
    rw [compressed?, asked]
  | some effort =>
    obtain ⟨least, most⟩ := CompressionLevel.effortBounds asked
    obtain ⟨body, compressed, back⟩ := lossless effort.toNatClampNeg data least most short
    refine ⟨some body, ?_, fun other same => Option.some.inj same ▸ back⟩
    simp only [compressed?, asked, compressed]

theorem framedLength (name : UInt8) (length : Nat) (body : Bytes) :
    (framed name length body).length = 5 + body.length := by
  rw [framed, List.cons_append, List.length_cons, List.length_append, Bytes.length_ofNatLE]
  omega

theorem unpackFrame {name : UInt8} {length : Nat} {body : Bytes} (short : length < 0x100000000) :
    unpackWith codec (framed name length body) = decodeBody codec name body length >>= fun found =>
      if found.length ≠ length then .error (.corrupted (.decodedLength found.length length)) else .ok found := by
  have told : Bytes.toNatLE (Bytes.ofNatLE 4 length) = length := Bytes.toNatLE_ofNatLE_of_lt short
  have taken : unpackWith codec (framed name length body) =
      decodeBody codec name body (Bytes.toNatLE (Bytes.ofNatLE 4 length)) >>= fun found =>
        if found.length ≠ Bytes.toNatLE (Bytes.ofNatLE 4 length) then
          .error (.corrupted (.decodedLength found.length (Bytes.toNatLE (Bytes.ofNatLE 4 length))))
        else .ok found := rfl
  rw [taken, told]

theorem unpackFramed {name : UInt8} {body : Bytes} (short : data.length < 0x100000000)
    (decoded : decodeBody codec name body data.length = .ok data) :
    unpackWith codec (framed name data.length body) = .ok data := by
  rw [unpackFrame short, decoded]
  exact if_neg fun other => other rfl

theorem packChoice {body? : Option Bytes} (short : data.length < 0x100000000)
    (compressed : compressed? codec level data = .ok body?) :
    packWith codec level data = .ok (match body?.filter (·.length < data.length) with
      | some body => framed zstdCodec data.length body
      | none => framed storedCodec data.length data) := by
  rw [packWith, if_neg (Nat.not_le.2 short), compressed]
  change (match body?.filter (·.length < data.length) with | some _ => _ | none => _) = _
  split <;> rfl

theorem packShort {frame : Bytes} (packed : packWith codec level data = .ok frame) : data.length < 0x100000000 := by
  refine Nat.not_le.1 fun long => ?_
  rw [packWith, if_pos long] at packed
  cases packed

theorem packBack (lossless : codec.Lossless) (level : CompressionLevel) (short : data.length < 0x100000000) :
    ∃ frame, packWith codec level data = .ok frame ∧ frame.length ≤ 5 + data.length ∧
      unpackWith codec frame = .ok data := by
  obtain ⟨body?, compressed, back⟩ := compressedBack lossless level short
  refine ⟨_, packChoice short compressed, ?_⟩
  split
  · next body kept =>
    obtain ⟨mem, shorter⟩ := Option.filter_eq_some_iff.1 kept
    refine ⟨?_, unpackFramed short ?_⟩
    · rw [framedLength]
      have := of_decide_eq_true shorter
      omega
    · rw [decodeBody, back body mem]
      rfl
  · exact ⟨Nat.le_of_eq (framedLength ..), unpackFramed short rfl⟩

end Packed
end SymbolCatalog
