import TypedLambda.Proofs.Lexing.Numerals
import TypedLambda.Typing

/-!
# Texts without a newline

What is shown of types, operators, names and values stays on one line. Names and texts are quoted,
which turns a newline into an escape, with one exception: a function is shown by the bare name of
its parameter (`Value.oneLine_render`). So the words for a mismatch are on one line whatever names
the program has (`Mismatch.oneLine_render`).
-/

namespace TypedLambda

namespace Text

def OneLine (s : String) : Prop := '\n' ∉ s.toList

instance (s : String) : Decidable (OneLine s) := inferInstanceAs (Decidable ('\n' ∉ s.toList))

theorem OneLine.append {s t : String} (hs : OneLine s) (ht : OneLine t) : OneLine (s ++ t) := by
  rw [OneLine, String.toList_append, List.mem_append]
  exact not_or.mpr ⟨hs, ht⟩

theorem oneLine_ofList {cs : List Char} (h : '\n' ∉ cs) : OneLine (String.ofList cs) := by
  rwa [OneLine, String.toList_ofList]

/-! ## Numbers -/

theorem oneLine_toString (n : Int) : OneLine (toString n) := by
  intro h
  rcases Numeral.of_mem_toList_toString h with hsign | hdigit
  · exact absurd hsign (by decide)
  · exact absurd hdigit (by decide)

/-! ## Quoted text -/

theorem newline_not_mem_lowerHex (width n : Nat) : '\n' ∉ lowerHex width n := by
  have hdigit : ∀ d < 16, lowerDigit d ≠ '\n' := by decide
  induction width generalizing n with
  | zero => exact List.not_mem_nil
  | succ width ih =>
    rw [lowerHex, List.mem_append, List.mem_singleton]
    rintro (h | h)
    · exact ih _ h
    · exact hdigit (n % 16) (Nat.mod_lt _ (by decide)) h.symm

theorem controlLetter?_ne_newline {c letter : Char} (h : controlLetter? c = some letter) :
    letter ≠ '\n' := by
  unfold controlLetter? at h
  split at h <;> cases h <;> decide

namespace Quoted

theorem newline_not_mem_escape {quote : Char} (hquote : quote ≠ '\n') (c : Char) :
    '\n' ∉ escape quote c := by
  unfold escape
  split
  · next hc =>
    rw [Bool.or_eq_true, beq_iff_eq, beq_iff_eq] at hc
    rcases hc with rfl | rfl
    · simpa using hquote.symm
    · decide
  · split
    · next hprintable =>
      rintro hmem
      rw [← List.mem_singleton.mp hmem] at hprintable
      exact absurd hprintable (by decide)
    · split
      · next letter hletter => simpa using (controlLetter?_ne_newline hletter).symm
      · repeat' split
        all_goals simpa using newline_not_mem_lowerHex _ _

theorem oneLine_quoted {α : Type} {f : α → List Char} (h : ∀ a, '\n' ∉ f a) (as : List α) :
    OneLine (String.ofList ('\x22' :: as.flatMap f ++ ['\x22'])) := by
  refine oneLine_ofList ?_
  rw [List.cons_append, List.mem_cons, List.mem_append, List.mem_flatMap]
  rintro (hopening | ⟨a, _, ha⟩ | hclosing)
  · exact absurd hopening (by decide)
  · exact h a ha
  · exact absurd hclosing (by decide)

theorem oneLine_ofString (s : String) : OneLine (ofString s) :=
  oneLine_quoted (newline_not_mem_escape (by decide)) s.toList

theorem oneLine_ofBytes (bs : List UInt8) : OneLine (ofBytes bs) := by
  refine oneLine_quoted (fun piece => ?_) (Utf8.decode bs)
  cases piece with
  | char c => exact newline_not_mem_escape (by decide) c
  | stray b => simpa [escapePiece] using newline_not_mem_lowerHex 2 b.toNat

end Quoted

end Text

open Text

/-! ## What is shown -/

theorem Ty.oneLine_render (t : Ty) : OneLine t.render := by
  induction t with
  | int | bool | text => decide
  | fn arg result ihArg ihResult =>
    refine OneLine.append (OneLine.append ?_ (by decide)) ihResult
    split
    · exact (OneLine.append (by decide) ihArg).append (by decide)
    · exact ihArg

theorem Operator.oneLine_render (op : Operator) : OneLine op.render := by
  cases op with
  | unknown n => exact (OneLine.append (by decide) (oneLine_toString n)).append (by decide)
  | _ => decide

theorem Site.oneLine_render (site : Site) : OneLine site.render := by
  cases site with
  | definition name => exact OneLine.append (by decide) (Quoted.oneLine_ofString name)
  | leftOperand op | rightOperand op => exact OneLine.append (by decide) op.oneLine_render
  | application | condition | branches => decide

theorem Mismatch.oneLine_render (m : Mismatch) : OneLine m.render := by
  have hsite : OneLine ("TYPE-ERROR: " ++ m.site.render ++ ", expected ") :=
    (OneLine.append (by decide) m.site.oneLine_render).append (by decide)
  have hexpected := (hsite.append m.expected.oneLine_render).append (t := " but got ") (by decide)
  exact hexpected.append m.actual.oneLine_render

theorem Value.oneLine_render {v : Value}
    (h : ∀ env param body, v = .closure env param body → OneLine param) : OneLine v.render := by
  cases v with
  | int n => exact oneLine_toString n.toInt
  | bool b => cases b <;> decide
  | text bytes => exact Quoted.oneLine_ofBytes bytes
  | closure env param body =>
    exact (OneLine.append (by decide) (h env param body rfl)).append (by decide)

end TypedLambda
