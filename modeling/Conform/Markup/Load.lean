import Conform.Markup.Tokens
import Conform.Markup.Objects

/-!
# Loading

The way from a text to the graph of objects that it stands for: its source, its tokens, its nodes,
its objects. An empty document stands for nothing.
-/

namespace Conform.Markup

/-- The document of a text. A text that is no document, or has a scalar without a value, fails. -/
def load (text : List Char) : Except Fault (Option Document) := do
  if !isSource text then throw .malformed
  let scanned := tokensOf text
  match ← Composition.compose scanned.tokens scanned.fault with
  | none => pure none
  | some composed => return some (← composed.document)

end Conform.Markup
