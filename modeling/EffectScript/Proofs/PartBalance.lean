import EffectScript.Proofs.Balance
import EffectScript.Proofs.Parts
import EffectScript.Proofs.Promotion

/-!
# Every part of a function leaves one value

In the finished code of a function, the instructions of each of its expressions
and blocks are a balanced region: whatever way control takes through them, there
is one more value on the operand stack at the end than at the start, and no
value that was there before is taken.

The last instruction of a part may be missing from the finished code. It is then
the push of a result that was removed because nobody uses it; what is left of
the part leaves the stack as it was.

The body of a function is such a part, so its return is reached with exactly one
value.
-/

namespace EffectScript

open Nest

/-- The instructions of a part stand in the finished code of its function, up to
a push of the result that was removed. -/
def Stays
    (instructions : List Instruction)
    (after : Nest) (code : Array UInt8) : Prop :=
  instructions <:+: (Instruction.walk code).instructions ∨
    ∃ front, instructions = front ++ [⟨after.offset - 1, .pushNil, []⟩] ∧
      front <:+: (Instruction.walk code).instructions ∧
      after.current.removable = some (after.offset - 1)

/-- The code is balanced up to its last instruction, the only return. Control
always comes there with one value on the operand stack. -/
structure ReturnsSingle (code : Array UInt8) : Prop where
  balanced : ∃ instructions last depths, Instruction.walk code =
      ⟨instructions ++ [last], none⟩ ∧
    last.opcode = .return ∧ Balanced instructions 0 last.offset 0 depths
  single : ∀ instruction ∈ (Instruction.walk code).instructions,
    instruction.opcode = .return →
    ∀ reached, Comes (Instruction.walk code).instructions 0 0 instruction.offset
      reached → reached = 1

/-- The body of a function is followed by a return. -/
theorem returnsSingle_of_walk {bytes : Array UInt8}
    {heap : List UInt8} {code : Code}
    (typed : code.Typed 0)
    (single : code.heightAfter 0 = 1)
    (fits : code.Fits)
    (walk : Instruction.walk bytes =
      ⟨placed heap 0 (code.emissions ++ [⟨.return, []⟩]), none⟩) :
    ReturnsSingle bytes := by
  obtain ⟨depths, balanced⟩ := code.balanced typed single fits heap 0 0
  rw [placed_append] at walk
  let last : Instruction := ⟨0 + totalSize code.emissions, .return, []⟩
  have lastEq : placed heap (0 + totalSize code.emissions) [⟨.return, []⟩] =
      [last] := rfl
  rw [lastEq] at walk
  rw [← code.totalSize_emissions] at balanced
  refine ⟨⟨_, last, depths, walk, rfl, balanced⟩,
    fun instruction member returns reached comes => ?_⟩
  rw [walk] at member comes
  have returnsLast : ∀ other ∈ [last], other.opcode = .return := by simp [last]
  rw [balanced.depth_eq returnsLast comes]
  rcases List.mem_append.1 member with inside | behind
  · exact absurd returns (balanced.stays instruction inside)
  · cases List.mem_singleton.1 behind
    exact balanced.ends

namespace Nest

variable {held new : List Emission} {nest later : Nest}

/-- The code of a finished function is the assembly of what was written, and a
return. -/
theorem Lowers.walk_finish
    (lowers : Lowers held new nest later)
    (line : UInt32) :
    Instruction.walk (later.emitReturn line).current.finish.code =
      ⟨placed (later.emitReturn line).current.heapSlots 0
        (held ++ new ++ [⟨.return, []⟩]), none⟩ := by
  have returned : (later.emitReturn line).current.Holds
      (held ++ new ++ [⟨.return, []⟩]) :=
    lowers.holds.emit_plain rfl rfl _
  exact walk_assemble returned.bytes returned.complete

end Nest

/-- The emissions of a part stand where it was written. -/
theorem Remains.stays
    {before new whole held innerHeld : List Emission} {after : Nest}
    {code : Array UInt8} {heap : List UInt8}
    (remains : Remains before new whole after)
    (walk : Instruction.walk code =
      ⟨placed heap 0 (held ++ whole ++ [⟨.return, []⟩]), none⟩)
    (place : totalSize innerHeld = totalSize (held ++ before))
    (offset : after.offset = totalSize (innerHeld ++ new)) :
    Stays (placed heap (totalSize innerHeld) new) after code := by
  unfold Stays
  rw [walk, place]
  rcases remains with ⟨rest, rfl⟩ | ⟨front, rest, rfl, rfl, removed⟩
  · refine .inl ⟨placed heap 0 (held ++ before),
      placed heap (totalSize (held ++ before) + totalSize new)
      (rest ++ [⟨.return, []⟩]), ?_⟩
    simp [Nat.add_assoc]
  · refine .inr ⟨placed heap (totalSize (held ++ before)) front, ?_,
      ⟨placed heap 0 (held ++ before),
        placed heap (totalSize (held ++ before) + totalSize front)
          (rest ++ [⟨.return, []⟩]), ?_⟩, removed⟩
    · have last : after.offset - 1 = totalSize (held ++ before) +
          totalSize front := by
        have push : totalSize [⟨.pushNil, []⟩] = 1 := rfl
        rw [offset, totalSize_append innerHeld, place,
          totalSize_append front, push]
        omega
      rw [placed_append, last]
      rfl
    · simp [Nat.add_assoc]

/-- Every expression and every block leaves one more value on the operand stack,
whichever way control takes through its instructions in the finished code of its
function. So control comes to the return of every function with one value. -/
theorem parts_leave_one_value (nils : StatementNils) (program : Block) :
    (∀ body nest later line, Block.Begins nils program body nest →
      lowerBlock nils body nest = .ok later →
      ReturnsSingle (later.emitReturn line).current.finish.code ∧
      ∀ part inner, Part.Inside nils body nest part inner →
        ∃ after instructions,
        part.lower nils inner = .ok after ∧
        Spans inner.offset after.offset instructions ∧
        (∀ depth, ∃ depths, Balanced instructions inner.offset after.offset
          depth depths) ∧
        Stays instructions after (later.emitReturn line).current.finish.code) ∧
    ∀ script, program.compileWith nils = .ok script →
      ∀ inner, script.Contains inner →
      ReturnsSingle inner.code := by
  refine ⟨fun body nest later line begins lowered => ?_,
    fun script compiled inner contains => ?_⟩
  · obtain ⟨held, ready, start⟩ := begins.ready
    refine ⟨?_, fun part inner inside => ?_⟩
    · obtain ⟨code, produces, _⟩ := lowerBlock_yields body ready lowered
      have walk := produces.toLowers.walk_finish line
      rcases start with rfl | rfl
      · exact returnsSingle_of_walk produces.typed produces.height
          produces.fits walk
      · exact @returnsSingle_of_walk
          _ _ ((Code.plain ⟨.comment, []⟩).sequence code)
          ⟨⟨rfl, rfl, Nat.le_refl _⟩, produces.typed⟩ produces.height
            ⟨trivial, produces.fits⟩ walk
    · obtain ⟨innerHeld, innerReady, remains⟩ := inside.remains ready
      obtain ⟨after, partLowered, stands⟩ := remains later lowered
      obtain ⟨code, produces, appends⟩ :=
        (part.lower_yields innerReady partLowered).appends
      obtain ⟨before, whole, place, wholeAppends, stays⟩ := stands _ appends
      have offset : after.offset = totalSize (innerHeld ++ code.emissions) :=
        produces.toReady.offset
      have ends : after.offset = inner.offset + code.size := by
        rw [offset, totalSize_append, innerReady.offset,
          code.totalSize_emissions]
      refine ⟨after, placed (later.emitReturn line).current.heapSlots
        inner.offset code.emissions,
        partLowered, ?_, ?_, ?_⟩
      · rw [ends, ← code.totalSize_emissions]
        exact spans_placed
          (fun emission member => produces.holds.complete emission
            (by simp [member])) _ _
      · rw [ends]
        exact code.balanced produces.typed produces.height produces.fits _ _
      · rw [innerReady.offset]
        exact stays.stays (wholeAppends.toLowers.walk_finish line) place offset
  · obtain ⟨sound, _⟩ := contains.sound (Block.compileWith_sound compiled).1
      (Block.compileWith_tidy compiled).1
    obtain ⟨code, laidOut⟩ := sound
    have walk := laidOut.walk_eq
    rw [Template.annotations, List.map_append, Code.map_annotated] at walk
    exact returnsSingle_of_walk laidOut.typed laidOut.single laidOut.fits walk

/-- The result of an assignment that is no longer in the code. -/
theorem assignment_leaves_one_value :
    ∃ program nest later after instructions assignment,
      Block.Begins .elided program program nest ∧
      lowerBlock .elided program nest = .ok later ∧
      Part.Inside .elided program nest (.expression assignment) nest ∧
      lowerExpr .elided assignment nest = .ok after ∧ after.offset = 5 ∧
      (∀ depth, ∃ depths, Balanced instructions 0 5 depth depths) ∧
      Stays instructions after (later.emitReturn 1).current.finish.code ∧
      (later.emitReturn 1).current.finish.code = #[0, 0, 9, 0, 8, 0, 16] ∧
      ReturnsSingle (later.emitReturn 1).current.finish.code := by
  let place : Position := ⟨1, 1⟩
  let assignment : Expr :=
    .assign (.ident "x" place) (.literal (.int 7) place) place
  let program : Block := ⟨[assignment, .ident "x" place], place⟩
  let nest : Nest :=
    ⟨({ name := scriptName } : Draft).addSlot scriptName 0, [], 0⟩
  have begins : Block.Begins .elided program program nest :=
    .script (rfl : Draft.start scriptName [] 1 = .ok nest.current)
  have inside : Part.Inside .elided program nest
      (.expression assignment) nest :=
    .part (.part .body .statements) .statement
  have lowered : lowerBlock .elided program nest = .ok _ := rfl
  have assigned : lowerExpr .elided assignment nest = .ok _ := rfl
  obtain ⟨returns, parts⟩ :=
    (parts_leave_one_value .elided program).1 program nest _ 1 begins lowered
  obtain ⟨after, instructions, again, _, balanced, stays⟩ := parts _ nest inside
  cases assigned.symm.trans again
  exact ⟨program, nest, _, _, instructions, assignment, begins, lowered, inside,
    assigned, rfl, balanced, stays, rfl, returns⟩

end EffectScript
