import JvmCoverage.Bytes.Reader
import JvmCoverage.Error.Instrument

/-!
# Stack map frames

A stack map table lists the frames of a method in code order.  In memory a frame stands at an
absolute code offset; in the table it holds its distance from the frame before it, which is the
number of code bytes strictly between them, and the first frame holds its offset.  Reading takes
the distances and then adds them up (`Frame.place`); writing takes the distances again
(`Frame.distances`) and picks the shortest form of each frame.
-/

namespace JvmCoverage

/-- The type of a local variable or operand as a frame states it. -/
inductive VerificationType where
  | top
  | integer
  | float
  | double
  | long
  | null
  | uninitializedThis
  /-- An object of the class in a pool slot. -/
  | object (index : UInt16)
  /-- What the `new` at a code offset created, before its constructor ran. -/
  | uninitialized (offset : UInt16)
  deriving DecidableEq

namespace VerificationType

open Reader in
/-- Reads a type: a tag and, for the last two, an operand. -/
def read : Reader VerificationType := do
  let tag ← field8
  match tag with
  | 0 => return top
  | 1 => return integer
  | 2 => return float
  | 3 => return double
  | 4 => return long
  | 5 => return null
  | 6 => return uninitializedThis
  | 7 => object <$> field16
  | 8 => uninitialized <$> field16
  | tag => throw (.malformed (.unknownVerificationType tag))

/-- The byte form of a type. -/
def toBytes : VerificationType → List UInt8
  | top => [0]
  | integer => [1]
  | float => [2]
  | double => [3]
  | long => [4]
  | null => [5]
  | uninitializedThis => [6]
  | object index => 7 :: Bytes.field16 index
  | uninitialized offset => 8 :: Bytes.field16 offset

end VerificationType

/-- How a frame differs from the frame before it. -/
inductive FrameShape where
  | same
  /-- The same locals and one operand. -/
  | oneOperand (type : VerificationType)
  /-- Without the last `count` locals. -/
  | chop (count : UInt8)
  /-- With further locals. -/
  | append (locals : List VerificationType)
  | full (locals stack : List VerificationType)
  deriving DecidableEq

/-- A frame at a code offset. -/
structure Frame where
  offset : Nat
  shape : FrameShape
  deriving DecidableEq

namespace FrameShape

open Reader in
/-- Reads a frame and gives its distance with its shape. -/
def read : Reader (Nat × FrameShape) := do
  let type ← field8
  if type ≤ 63 then
    return (type.toNat, same)
  else if type ≤ 127 then
    let operand ← VerificationType.read
    return (type.toNat - 64, oneOperand operand)
  else if type ≤ 246 then
    throw (.malformed (.reservedFrameType type))
  else
    let distance ← unsigned 2
    if type = 247 then
      let operand ← VerificationType.read
      return (distance, oneOperand operand)
    else if type ≤ 250 then
      return (distance, chop (251 - type))
    else if type = 251 then
      return (distance, same)
    else if type ≤ 254 then
      let locals ← times (type.toNat - 251) VerificationType.read
      return (distance, append locals)
    else
      let locals ← counted VerificationType.read
      let stack ← counted VerificationType.read
      return (distance, full locals stack)

/-- The byte forms of the types of `types`, one behind the other. -/
def typeBytes (types : List VerificationType) : List UInt8 :=
  types.flatMap VerificationType.toBytes

/-- The byte form of a frame at the given distance.  Distances up to 63 fit into the tag of a
frame with the same locals. -/
def toBytes (distance : Nat) : FrameShape → List UInt8
  | same =>
    if distance ≤ 63 then [UInt8.ofNat distance] else 251 :: Bytes.count16 distance
  | oneOperand type =>
    (if distance ≤ 63 then [UInt8.ofNat (64 + distance)] else 247 :: Bytes.count16 distance)
      ++ type.toBytes
  | chop count => (251 - count) :: Bytes.count16 distance
  | append locals =>
    (251 + UInt8.ofNat locals.length) :: (Bytes.count16 distance ++ typeBytes locals)
  | full locals stack =>
    255 :: (Bytes.count16 distance ++ Bytes.count16 locals.length ++ typeBytes locals
      ++ Bytes.count16 stack.length ++ typeBytes stack)

/-- Applies `f` to every type of a frame, in order, and stops at the first failure. -/
def mapTypes {ε : Type} (f : VerificationType → Except ε VerificationType) :
    FrameShape → Except ε FrameShape
  | same => .ok same
  | oneOperand type => oneOperand <$> f type
  | chop count => .ok (chop count)
  | append locals => append <$> locals.mapM f
  | full locals stack => full <$> locals.mapM f <*> stack.mapM f

end FrameShape

namespace Frame

/-- The offset that lies `distance` behind the frame at `previous`. -/
def offsetAfter (previous : Option Nat) (distance : Nat) : Nat :=
  match previous with
  | none => distance
  | some offset => offset + distance + 1

/-- One more frame behind the frames `placed`, latest first. -/
def placeNext (placed : List Frame) (frame : Nat × FrameShape) : List Frame :=
  ⟨offsetAfter (placed.head?.map Frame.offset) frame.1, frame.2⟩ :: placed

/-- The frames at absolute offsets for frames that hold distances. -/
def place (frames : List (Nat × FrameShape)) : List Frame :=
  (frames.foldl placeNext []).reverse

/-- Reads the content of a stack map table. -/
def readTable (payload : List UInt8) : Except DecodeError (List Frame) :=
  (Reader.runAll (Reader.counted FrameShape.read) payload).map place

/-- The distance of a frame at `offset` from the frame at `previous`. -/
def distance (previous : Option Nat) (offset : Nat) : Except EncodeFault Nat :=
  match previous with
  | none => .ok offset
  | some before =>
    if before < offset then .ok (offset - before - 1) else .error (.frameOrder offset before)

/-- The byte form of one more frame behind the frame at `previous`, after the bytes `written`. -/
def writeNext (state : Option Nat × Array UInt8) (frame : Frame) :
    Except EncodeFault (Option Nat × Array UInt8) := do
  let distance ← distance state.1 frame.offset
  if 65535 < distance then throw (.wideOffset .frame distance)
  return (some frame.offset, state.2 ++ frame.shape.toBytes distance)

/-- The content of a stack map table; fails when the offsets do not increase or a distance does
not fit its field. -/
def writeTable (frames : List Frame) : Except EncodeFault (List UInt8) := do
  let (_, bytes) ← frames.foldlM writeNext (none, #[])
  return Bytes.count16 frames.length ++ bytes.toList

end Frame

end JvmCoverage
