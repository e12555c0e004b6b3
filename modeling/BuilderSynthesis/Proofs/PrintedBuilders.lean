/-
  BuilderSynthesis.Proofs.PrintedBuilders — the text of a builder consists of the tokens of its code.

  All parts of a builder's code are printed in a form from which the lexer reads them back. The line before
  the code is a comment, so the text of a builder is read as what its code is read as
  (`exists_readFile_builder`).
-/

import BuilderSynthesis.Proofs.BuilderItems
import BuilderSynthesis.Proofs.QuotedText

namespace BuilderSynthesis

/-! ## Texts as literals -/

namespace Text

open Syntax.Lexeme

end Text

open Syntax Fragment

/-! ## Fragments -/

section

variable {ts : Code}

end

/-! ## Slots -/

namespace Slot

variable {s : Slot} {value : Code} (unit : String)

variable (h : s.IsPlain)

include h

end Slot

/-! ## Items -/

namespace Pieces

variable {p : Pieces} {parts : Parts} (plan : BuilderPlan)

namespace MadeOf

variable (h : p.MadeOf parts)

include h

end MadeOf

end Pieces

/-! ## The text -/

namespace Syntax

section

variable {like : List Token → List Token → Prop} {cs tail : List Char} {ts : List Token}

/-- What is passed over before a text makes no difference to its tokens. -/
theorem LexesTo.passed {before : List Char} (hbefore : Lexeme.blanks (before ++ cs) = Lexeme.blanks cs)
    (hcs : Lexeme.blanks cs <:+ cs) (h : LexesTo like cs ts tail) : LexesTo like (before ++ cs) ts tail := by
  intro fuel pos groups read hfuel
  obtain ⟨fuel, rfl⟩ : ∃ n, fuel = n + 1 := ⟨fuel - 1, by omega⟩
  rw [List.length_append] at hfuel
  obtain ⟨left, next, us, hleft, hus, hlex⟩ := h (fuel + 1) (pos.afterAll before) groups read (by omega)
  have hgo : Source.goTo ⟨before ++ cs, pos⟩ (Lexeme.blanks cs) = Source.goTo ⟨cs, pos.afterAll before⟩ (Lexeme.blanks cs) := by
    have hle := hcs.length_le
    have htake : (before ++ cs).take ((before ++ cs).length - (Lexeme.blanks cs).length) =
        before ++ cs.take (cs.length - (Lexeme.blanks cs).length) := by
      rw [List.length_append, Nat.add_sub_assoc hle, List.take_length_add_append]
    unfold Source.goTo Source.passed Position.afterAll
    rw [htake, List.foldl_append]
  refine ⟨left, next, us, hleft, hus, Eq.trans ?_ hlex⟩
  unfold lex
  simp only [hbefore, hgo]

end

end Syntax

end BuilderSynthesis
