import XChainVM.Metering.Scope

/-! # Reserved identifiers -/

namespace XChainVM.Metering

open Node

def ALLOC_HELPERS : List String :=
  ["__concat", "__setconcat", "__setconcatL", "__tmpl", "__tmpltag", "__tmpltagm", "__arrspread",
    "__objspread", "__objspreadmeter"]

def DEPTH_HELPERS : List String := ["__depth_enter", "__depth_exit"]

def RESERVED_IDENTIFIERS : List String := "__gas" :: (ALLOC_HELPERS ++ DEPTH_HELPERS)

def findReservedIdentifier (ast : Node) : Option String :=
  ast.identifiers.find? RESERVED_IDENTIFIERS.contains

end XChainVM.Metering
