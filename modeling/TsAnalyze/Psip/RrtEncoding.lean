import TsAnalyze.Psip.MgtEncoding

set_option autoImplicit false

namespace TsAnalyze.Psip

open Memory Tables

/-- A text that a byte can state the length of. -/
structure ShortText where
  text : MultiText
  short : text.encode.length ≤ 255

-- behind its length
def ShortText.encode (text : ShortText) : List UInt8 :=
  [UInt8.ofNat text.text.encode.length] ++ text.text.encode

structure RatingValue where
  abbreviated : ShortText
  full : ShortText

structure Dimension where
  name : ShortText
  graduatedScale : Bool
  values : List RatingValue
  few : values.length ≤ 15

namespace RatingValue

def encode (value : RatingValue) : List UInt8 :=
  value.abbreviated.encode ++ value.full.encode

def stored (value : RatingValue) : DefineRating :=
  ⟨UInt8.ofNat value.abbreviated.text.encode.length, value.abbreviated.text.stored,
    UInt8.ofNat value.full.text.encode.length, value.full.text.stored⟩

end RatingValue

namespace Dimension

def encode (dimension : Dimension) : List UInt8 :=
  dimension.name.encode ++
    [UInt8.ofNat (7 * 2 ^ 5 + dimension.graduatedScale.toNat * 2 ^ 4 + dimension.values.length)] ++
    dimension.values.flatMap RatingValue.encode

def stored (dimension : Dimension) : DefineDimension :=
  ⟨UInt8.ofNat dimension.name.text.encode.length, dimension.name.text.stored,
    dimension.graduatedScale.toNat, dimension.values.length,
    some (dimension.values.map RatingValue.stored)⟩

end Dimension

variable {D : Type} (ops : DescriptorOps D)

structure RatingRegion where
  protocolVersion : UInt8
  name : ShortText
  dimensions : List Dimension
  descriptors : List (AcceptedDescriptor ops)
  few : dimensions.length ≤ 255

variable {ops}

namespace RatingRegion

variable (region : RatingRegion ops)

def body : List UInt8 :=
  [region.protocolVersion] ++ region.name.encode ++ [UInt8.ofNat region.dimensions.length] ++
    region.dimensions.flatMap Dimension.encode ++ encodeShortLoop region.descriptors

/-- The table says what the region says. -/
structure Decoded (rrt : Rrt D) : Prop where
  protocolVersion : rrt.protocolVersion = region.protocolVersion
  name : rrt.ratingRegionNameText = region.name.text.stored
  dimensionsDefined : rrt.dimensionsDefined.toNat = region.dimensions.length
  dimensions : rrt.dimensions.getD [] = region.dimensions.map Dimension.stored
  descriptors : rrt.list.map Descriptor.label = region.descriptors.map AcceptedDescriptor.label

theorem dimensions_byte :
    (UInt8.ofNat region.dimensions.length).toNat = region.dimensions.length :=
  byte_of_length _ region.few

-- the memory from the number of dimensions on
def behindName (behind : Block) : Block :=
  ofBytes ([UInt8.ofNat region.dimensions.length] ++
    region.dimensions.flatMap Dimension.encode ++ encodeShortLoop region.descriptors) ++ behind

theorem drop_name (behind : Block) :
    (ofBytes region.body ++ behind).drop (2 + region.name.text.encode.length) =
      region.behindName behind := by
  have split : ofBytes region.body ++ behind =
      ofBytes ([region.protocolVersion] ++ region.name.encode) ++ region.behindName behind := by
    simp [body, behindName]
  rw [split]
  apply List.drop_left'
  simp [ShortText.encode]
  omega

end RatingRegion

-- a dimension of an array that has not been allocated
theorem dimensionLoop_null (count i : Nat) (pdata : Block) (heap : Heap)
    (result : (Option (List DefineDimension) × Option Block) × Heap)
    (found : dimensionLoop count i pdata none heap = some result) : count = 0 := by
  cases count with
  | zero => rfl
  | succ count =>
    obtain ⟨read, -, found⟩ := Option.bind_eq_some_iff.mp found
    obtain ⟨stored, storing, -⟩ := lift_bind found
    cases storing

section Rrt

variable (region : RatingRegion ops) (envelope : Envelope)
  (fits : region.body.length + 9 ≤ 0x3FD)
include fits

theorem dimensions_of_parses (good : Table (Rrt D) → Int → Prop)
    (parses : Parses (decodeRrt ops) {} envelope region.body good) : region.dimensions = [] := by
  obtain ⟨header, carries, given, result, available, decoding, -⟩ := parses.decodes fits
  obtain ⟨freed, -, decoding⟩ := lift_bind decoding
  obtain ⟨protocolVersion, -, decoding⟩ := lift_bind decoding
  obtain ⟨nameLength, lengthRead, decoding⟩ := lift_bind decoding
  obtain ⟨name, -, decoding⟩ := Option.bind_eq_some_iff.mp decoding
  obtain ⟨defined, definedRead, decoding⟩ := lift_bind decoding
  obtain ⟨looped, looping, -⟩ := Option.bind_eq_some_iff.mp decoding
  have length : nameLength = UInt8.ofNat region.name.text.encode.length :=
    (Option.some.inj lengthRead).symm
  rw [length, byte_of_length _ region.name.short, region.drop_name] at definedRead
  have number : defined = UInt8.ofNat region.dimensions.length :=
    (Option.some.inj definedRead).symm
  have none := dimensionLoop_null _ _ _ _ _ looping
  rw [number, region.dimensions_byte] at none
  exact List.eq_nil_of_length_eq_zero none

theorem parseRrt_empty (empty : region.dimensions = []) :
    Parses (decodeRrt ops) {} envelope region.body fun read ret =>
      ret = 0 ∧ region.Decoded read.content := by
  have size : region.body.length = 5 + region.name.text.encode.length +
      (encodeDescriptors region.descriptors).length := by
    simp only [RatingRegion.body, ShortText.encode, encodeShortLoop, empty, List.length_append,
      List.flatMap_nil, encode16_length, List.length_cons, List.length_nil]
    omega
  have length := byte_of_length _ region.name.short
  have none : (UInt8.ofNat region.dimensions.length).toNat = 0 := by
    rw [region.dimensions_byte, empty, List.length_nil]
  apply parseTable_encoded _ _ _ _ fits
  intro header carries
  have title : (ofBytes region.body ++ envelope.behind).drop 2 =
      ofBytes region.name.text.encode ++ region.behindName envelope.behind := by
    simp [RatingRegion.body, RatingRegion.behindName, ShortText.encode]
  have rest : (region.behindName envelope.behind).drop 1 =
      ofBytes (encodeShortLoop region.descriptors) ++ envelope.behind := by
    simp [RatingRegion.behindName, empty]
  obtain ⟨word, wordRead, bits⟩ :=
    readShortLoop_encoded region.descriptors envelope.behind (by omega)
  have last : (ofBytes (encodeShortLoop region.descriptors) ++ envelope.behind).drop 2 =
      ofBytes (encodeDescriptors region.descriptors) ++ envelope.behind := rfl
  cases parseDescriptors_encoded region.descriptors envelope.behind with
  | intro list listed =>
    refine ⟨⟨⟨region.protocolVersion, UInt8.ofNat region.name.text.encode.length,
      region.name.text.stored, UInt8.ofNat region.dimensions.length, Option.none,
      (encodeDescriptors region.descriptors).length, list⟩, 0, []⟩,
      ⟨rfl, rfl, rfl, region.dimensions_byte, by rw [empty]; rfl, listed.1⟩, ?_⟩
    apply yields_read (show _ = some () from rfl)
    apply yields_read (show _ = some region.protocolVersion from rfl)
    apply yields_read (show _ = some (UInt8.ofNat region.name.text.encode.length) from rfl)
    rw [title]
    apply yields_bind (parseMultiString_encoded region.name.text _)
    rw [length, region.drop_name]
    apply yields_read (show _ = some (UInt8.ofNat region.dimensions.length) from rfl)
    rw [none, rest]
    apply yields_bind (yields_pure _)
    apply yields_read wordRead
    dsimp only
    rw [bits, last]
    apply yields_bind listed.2
    exact yields_pure _

theorem parseRrt_encoded_iff :
    (Parses (decodeRrt ops) {} envelope region.body fun read ret =>
      ret = 0 ∧ region.Decoded read.content) ↔ region.dimensions = [] :=
  ⟨dimensions_of_parses region envelope fits _, parseRrt_empty region envelope fits⟩

end Rrt

def regionOf (dimensions : List Dimension) (few : dimensions.length ≤ 255) :
    RatingRegion copyOps :=
  ⟨0, ⟨plainText [0x55, 0x53] (by simp), by decide⟩, dimensions, [.plain 0x80 [0xFD] (by simp)],
    few⟩

def letter : ShortText :=
  ⟨plainText [0x47] (by simp), by decide⟩

-- one dimension with one value, all named by a letter
def letterDimension : Dimension :=
  ⟨letter, true, [⟨letter, letter⟩], by simp⟩

theorem parseRrt_encoded_empty :
    Parses (decodeRrt copyOps) {} (psipEnvelope 0xCA) (regionOf [] (by simp)).body
      fun read ret => ret = 0 ∧ (regionOf [] (by simp)).Decoded read.content :=
  (parseRrt_encoded_iff (regionOf [] (by simp)) (psipEnvelope 0xCA) (by decide)).mpr rfl

theorem parseRrt_null :
    ¬Parses (decodeRrt copyOps) {} (psipEnvelope 0xCA) (regionOf [letterDimension] (by simp)).body
      fun read ret => ret = 0 ∧ (regionOf [letterDimension] (by simp)).Decoded read.content := by
  intro parses
  have none := dimensions_of_parses (regionOf [letterDimension] (by simp)) (psipEnvelope 0xCA)
    (by decide) _ parses
  cases none

end TsAnalyze.Psip
