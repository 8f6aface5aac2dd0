import JaiFrontend.Span
/-!
# Built-in types

The types that the language knows by name.
-/

namespace JaiFrontend

inductive PrimitiveKind where
  | bool | string | int | float | float64 | float32 | s8 | s16 | s32 | s64 | u8 | u16 | u32 | u64
  | void | any | type | context
  deriving DecidableEq

namespace PrimitiveKind

def text : PrimitiveKind → String
  | .bool => "bool"
  | .string => "string"
  | .int => "int"
  | .float => "float"
  | .float64 => "float64"
  | .float32 => "float32"
  | .s8 => "s8"
  | .s16 => "s16"
  | .s32 => "s32"
  | .s64 => "s64"
  | .u8 => "u8"
  | .u16 => "u16"
  | .u32 => "u32"
  | .u64 => "u64"
  | .void => "void"
  | .any => "Any"
  | .type => "Type"
  | .context => "Context"

def name : PrimitiveKind → String
  | .bool => "Bool"
  | .string => "String"
  | .int => "Int"
  | .float => "Float"
  | .float64 => "Float64"
  | .float32 => "Float32"
  | .s8 => "S8"
  | .s16 => "S16"
  | .s32 => "S32"
  | .s64 => "S64"
  | .u8 => "U8"
  | .u16 => "U16"
  | .u32 => "U32"
  | .u64 => "U64"
  | .void => "Void"
  | .any => "Any"
  | .type => "Type"
  | .context => "Context"

def all : List PrimitiveKind :=
  [.bool, .string, .int, .float, .float64, .float32, .s8, .s16, .s32, .s64, .u8, .u16, .u32, .u64,
    .void, .any, .type, .context]

theorem mem_all (k : PrimitiveKind) : k ∈ all := by
  cases k <;> decide

def ofText? (s : String) : Option PrimitiveKind := all.find? (·.text == s)

def isInteger : PrimitiveKind → Bool
  | .int | .s8 | .s16 | .s32 | .s64 | .u8 | .u16 | .u32 | .u64 => true
  | _ => false

end PrimitiveKind

structure PrimitiveType where
  kind : PrimitiveKind
  span : Span
  deriving DecidableEq

end JaiFrontend
