import ExprLang.Number.Text
import ExprLang.Token.Basic
import ExprLang.Source.Scan
import ExprLang.Expr.Phrase
import ExprLang.Program.Basic
import ExprLang.Expr.Evaluation
import ExprLang.Program.Execution
import ExprLang.Session.Dialogue
import ExprLang.Main
import ExprLang.Proofs.Number.Bits
import ExprLang.Proofs.Program.Acceptance
import ExprLang.Proofs.Program.Recovery
import ExprLang.Proofs.Program.ViablePrefix
import ExprLang.Proofs.Source.Tiling
import ExprLang.Proofs.Source.LineBreak
import ExprLang.Proofs.Expr.Typing
import ExprLang.Proofs.Expr.Equality
import ExprLang.Proofs.Session.TextLines
import ExprLang.Proofs.Program.Origin
import ExprLang.Proofs.Expr.LongestPhrase
import ExprLang.Proofs.Program.Regions
import ExprLang.Proofs.Session.Fresh
import ExprLang.Proofs.Session.Layout
import ExprLang.Proofs.Session.Independence
import ExprLang.Proofs.Program.Relined
import ExprLang.Proofs.Program.Later
import ExprLang.Proofs.Session.Script
import ExprLang.Proofs.Session.Truncation
import ExprLang.Proofs.Session.Bookkeeping
import ExprLang.Proofs.Session.ReportOrder
import ExprLang.Proofs.Process.Script
import ExprLang.Proofs.Program.Output
import ExprLang.Proofs.Source.Places
import ExprLang.Proofs.Source.Writing
import ExprLang.Proofs.Expr.Parenthesized
import ExprLang.Proofs.Number.ReadBack
import ExprLang.Proofs.Number.Nearest
import ExprLang.Proofs.Number.Numeral
import ExprLang.Proofs.Number.Sign
import ExprLang.Proofs.Number.Notation
import ExprLang.Proofs.Number.Whole
import ExprLang.Proofs.Program.Listing
import ExprLang.Proofs.Process.Prompt
import ExprLang.Proofs.Source.Adjacent
import ExprLang.Proofs.Session.PrintStatement
import ExprLang.Proofs.Session.PrintedNumber
import ExprLang.Proofs.Expr.Chain
import ExprLang.Proofs.Session.Concatenation
