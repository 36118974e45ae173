import CommandBatch.Standard.Commands
import CommandBatch.Token.Array
import CommandBatch.Extension.Module

/-!
# The extension for arrays

A type of arguments for arrays of numbers, and commands that add up, measure, multiply and print
them. Results that are numbers are whole where that loses nothing.
-/

namespace CommandBatch.Standard.Tensors

open Decimal

variable {σ : Type}

/-- A number as a datum: whole if it has no fractional part. -/
def asNumber (x : Float) : Datum :=
  match isWhole x, truncate? x with
  | true, some i => .whole i
  | _, _ => .float x

/-- Goes on with the array that a datum holds. -/
def withTensor (d : Datum) (member : String) (next : Tensor → Script σ) : Script σ :=
  match d with
  | .tensor t => next t
  | d => .raise (.outside (.custom "AttributeError"
      s!"'{d.kind}' object has no attribute '{member}'"))

/-- Stores a number in a variable. -/
def storeNumber (name : String) (x : Float) : Script σ :=
  .andThen (.setVariable name TypeName.number (asNumber x)) .silent

/-- Stores an array in a variable. -/
def storeTensor (name : String) (t : Tensor) : Script σ :=
  .andThen (.setVariable name TypeName.tensor (.tensor t)) .silent

/-- Goes on with the name of the variable that an argument names. -/
def withName (target : Value) (next : String → Script σ) : Script σ :=
  .converted target.datum.toText next

/-- Stores the sum of the entries. A number is its own sum. -/
def sum : Handler σ
  | [target, tensor] =>
    withName target fun name =>
      match tensor.datum with
      | .tensor t => storeNumber name t.sum
      | d => .converted d.toFloat (storeNumber name)
  | _ => .silent

/-- Stores the shape. -/
def shape : Handler σ
  | [target, tensor] =>
    withTensor tensor.datum "shape" fun t => withName target fun name =>
      storeTensor name (.vector (t.shape.map fun n => Float.ofNat n))
  | _ => .silent

/-- Stores the product of two arrays. A product without axes is a number. -/
def dot : Handler σ
  | [target, left, right] =>
    withTensor left.datum "shape" fun a => withTensor right.datum "shape" fun b =>
      match a.product b with
      | .error misfit => .failWith (.misaligned "TDOT" misfit)
      | .ok ⟨[], entries⟩ => withName target fun name => storeNumber name (entries.getD 0 0.0)
      | .ok product => withName target fun name => storeTensor name product
  | _ => .silent

/-- Writes an array to the output. -/
def print : Handler σ
  | [tensor] => withTensor tensor.datum "size" fun t => .andThen (.output t.text) .silent
  | _ => .silent

/-- The commands of the extension. -/
def commands : List (Command (Handler σ)) :=
  let target := required [TypeName.reference]
  let tensor := required [TypeName.tensor]
  [⟨{ name := "TSUM", params := [target, tensor],
      description := "Store the sum of a tensor's elements." }, sum⟩,
    ⟨{ name := "TSHAPE", params := [target, tensor],
       description := "Store a tensor's shape as a tensor." }, shape⟩,
    ⟨{ name := "TDOT", params := [target, tensor, tensor],
       description := "Store the dot product of two tensors." }, dot⟩,
    ⟨{ name := "TPRINT", params := [tensor],
       description := "Write a tensor to the output." }, print⟩]

/-- What the extension says about itself. -/
def metadata : Metadata := { name := "tensor", version := "0.1.0" }

/-- What the extension registers. -/
def registrations : List (Registration σ) :=
  .metadata metadata ::
    .type (.text Token.tensor.name) Token.tensor.lexis Token.tensor.priority ::
    commands.map fun c => .command c.signature.declaration (some c.handler)

/-- The extension as a module. -/
def extension : Extension.Module σ where
  name := some (.text metadata.name)
  version := some (.whole interfaceVersion)
  entry := some fun _ host => (.ok registrations, host)

/-- The services with the extension. -/
def extend (s : Services σ) : Services σ :=
  { s with
    metadata := s.metadata ++ [metadata]
    types := ⟨TypeRegistry.insert Token.tensor s.types.types⟩
    commands := commands.foldl (·.register ·) s.commands }

end CommandBatch.Standard.Tensors
