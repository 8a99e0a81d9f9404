import BoardRules.Catalogue
import BoardRules.Guard.Reader

/-!
# Compiled guards

A guard is ready for evaluation when every list at every depth starts with the name of a primitive.
Compilation checks the whole tree, arguments included that evaluation might never look at, and
blames the first fault from left to right.
-/

namespace BoardRules

namespace Guard

/-- What a list can do. -/
inductive Primitive where
  | and
  | or
  | not
  | xor
  | equal
  | different
  | isNull
  | self
  | owner
  | me
  | localX
  | localY
  | pieceOn
  | moveCount
  | attacker
  deriving DecidableEq, Repr

/-- A primitive under a name, with the text that explains it to authors. -/
structure Word where
  primitive : Primitive
  doc : String
  deriving DecidableEq, Repr

end Guard

/-- The names that guards may use. -/
abbrev Vocabulary := Catalogue Guard.Word

/-- A compiled guard: a text, or a primitive with its arguments. -/
inductive Guard where
  | text (value : String)
  | call (primitive : Guard.Primitive) (args : List Guard)
  deriving Repr

namespace Guard

mutual

/-- Compile an expression. -/
def ofExpr (vocabulary : Vocabulary) : Expr → Except Refusal Guard
  | .quoted _ literal | .token _ literal => .ok (.text literal)
  | .list _ head rest =>
    match head.literal? with
    | none => .error ⟨head.offset, .headNotName⟩
    | some name =>
      match vocabulary.get? name with
      | none => .error ⟨head.offset, .unknownPrimitive name⟩
      | some word =>
        match ofExprs vocabulary rest with
        | .error e => .error e
        | .ok args => .ok (.call word.primitive args)

/-- Compile expressions from left to right, up to the first fault. -/
def ofExprs (vocabulary : Vocabulary) : List Expr → Except Refusal (List Guard)
  | [] => .ok []
  | e :: rest =>
    match ofExpr vocabulary e with
    | .error fault => .error fault
    | .ok guard =>
      match ofExprs vocabulary rest with
      | .error fault => .error fault
      | .ok guards => .ok (guard :: guards)

end

/-- Read and compile a text. -/
def compile (vocabulary : Vocabulary) (code : String) : Except Refusal Guard :=
  match parse code with
  | .error e => .error e
  | .ok expr => ofExpr vocabulary expr

end Guard

namespace Vocabulary

/-- Logic, equality and ownership. -/
def builtins : Vocabulary where
  entries :=
    [("and", ⟨.and,
        "(and <value>...)\n\ttrue if every value is truthy; stops at the first falsy one"⟩),
     ("or", ⟨.or,
        "(or <value>...)\n\ttrue if any value is truthy; stops at the first truthy one"⟩),
     ("not", ⟨.not, "(not <value>)\n\tlogical negation"⟩),
     ("xor", ⟨.xor, "(xor <value1> <value2>)\n\texactly one value is truthy"⟩),
     ("eq", ⟨.equal, "(eq <value1> <value2>)\n\ttest equal"⟩),
     ("neq", ⟨.different, "(neq <value1> <value2>)\n\ttest not equal"⟩),
     ("is-null", ⟨.isNull, "(is-null <value>)\n\ttest is null"⟩),
     ("self", ⟨.self, "(self)\n\treturn this piece"⟩),
     ("owner", ⟨.owner, "(owner <piece>)\n\treturn the player controlling the piece"⟩),
     ("me", ⟨.me, "(me)\n\talias of `(owner (self))`"⟩)]
  nodup := by decide

/-- The built-in words and those for geometry, counted moves and attackers. -/
def vanilla : Vocabulary where
  entries := builtins.entries ++
    [("vanilla.x", ⟨.localX,
        "(vanilla.x <piece>)\n\treturn the X-axis of piece in piece owner's coordinate system"⟩),
     ("vanilla.y", ⟨.localY,
        "(vanilla.y <piece>)\n\treturn the Y-axis of piece in piece owner's coordinate system"⟩),
     ("vanilla.get-piece", ⟨.pieceOn,
        "(vanilla.get-piece <x> <y> <viewer>)\n\treturn piece at [x,y] in viewer's coordinate system"⟩),
     ("vanilla.step", ⟨.moveCount,
        "(vanilla.step <piece>)\n\treturn the number of steps the piece has moved"⟩),
     ("vanilla.attacker", ⟨.attacker,
        "(vanilla.attacker)\n\treturn the piece which attack self"⟩)]
  nodup := by decide

end Vocabulary

end BoardRules
