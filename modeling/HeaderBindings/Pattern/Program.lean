import HeaderBindings.Pattern.Syntax

/-!
Programs: patterns laid out as steps with addresses. A matcher that has been at an address and a
place of the text need not come back to the pair, which keeps matching linear in both sizes.
Main function: `Pattern.program`.
-/

set_option autoImplicit false

namespace HeaderBindings

namespace Pattern

/-- One step of a program. A step that names no address goes on to the next one. -/
inductive Step
  | take (set : CharSet)
  | check (a : Assertion)
  | opening (index : Nat)
  | closing (index : Nat)
  /-- Tries the first address, and the second one if that fails. -/
  | fork (first second : Nat)
  | jump (target : Nat)
  | accept
  deriving DecidableEq, Repr

/-- A fork between one more round and the way out of a repetition; a greedy one tries the round
first. -/
def Step.again (greedy : Bool) (round out : Nat) : Step :=
  if greedy then .fork round out else .fork out round

namespace Expr

/-- The rounds that a repetition is laid out with: two rounds of an expression that takes nothing
are as good as one. -/
def layoutRounds (least : Nat) (most : Option Nat) (body : Expr) : Nat × Option Nat :=
  if body.isWidthless then (min least 1, some (min (most.getD 1) 1)) else (least, most)

def size : Expr → Nat
  | empty => 0
  | chars _ => 1
  | assertion _ => 1
  | group _ body => body.size + 2
  | both first second => first.size + second.size
  | either first second => first.size + second.size + 2
  | rounds least most _ body =>
    match layoutRounds least most body with
    | (0, none) => body.size + 2
    | (least, none) => least * body.size + 1
    | (least, some most) => least * body.size + (most - least) * (body.size + 1)

def emit (program : Array Step) : Expr → Array Step
  | empty => program
  | chars set => program.push (.take set)
  | assertion a => program.push (.check a)
  | group index body => (body.emit (program.push (.opening index))).push (.closing index)
  | both first second => second.emit (first.emit program)
  | either first second =>
    let next := program.size + first.size + 2
    let program := first.emit (program.push (.fork (program.size + 1) next))
    second.emit (program.push (.jump (next + second.size)))
  | rounds least most greedy body =>
    match layoutRounds least most body with
    | (0, none) =>
      let out := program.size + body.size + 2
      let program := program.push (.again greedy (program.size + 1) out)
      let round := program.size
      (body.emit program).push (.again greedy round out)
    | (least, none) =>
      let program := Nat.repeat body.emit (least - 1) program
      let round := program.size
      let program := body.emit program
      program.push (.again greedy round (program.size + 1))
    | (least, some most) =>
      let program := Nat.repeat body.emit least program
      let out := program.size + (most - least) * (body.size + 1)
      let optional (program : Array Step) : Array Step :=
        body.emit (program.push (.again greedy (program.size + 1) out))
      Nat.repeat optional (most - least) program

end Expr

def maxSteps : Nat := 327680

end Pattern

/-- The program of a pattern; it has none if it would get too long. -/
def Pattern.program? (pattern : Pattern) : Option (Array Pattern.Step) :=
  if pattern.expr.size ≤ maxSteps then some ((pattern.expr.emit #[]).push .accept) else none

end HeaderBindings
