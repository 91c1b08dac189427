import SchemaGraph.Graph.Basic

/-! When two graphs are the same: types, fields and the arguments of directives may be declared
in any order, while lists of directives and of field arguments are compared as they stand. -/

namespace SchemaGraph

def Annotation.same (a b : Annotation) : Bool :=
  a.name = b.name && Keyed.sameEntries (fun x y => x = y) a.arguments b.arguments

def Field.same (a b : Field) : Bool :=
  a.arguments = b.arguments && a.description = b.description &&
    a.directives.isEqv b.directives Annotation.same && a.type = b.type && a.name = b.name

def TypeDef.same (a b : TypeDef) : Bool :=
  a.description = b.description && a.directives.isEqv b.directives Annotation.same &&
    Keyed.sameEntries Field.same a.fields b.fields && a.kind = b.kind && a.name = b.name &&
    a.version = b.version

def Graph.same (a b : Graph) : Bool := Keyed.sameEntries TypeDef.same a.types b.types

end SchemaGraph
