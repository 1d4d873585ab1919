import Reckon.Main
import Reckon.Proofs.Sheet
import Reckon.Proofs.Markup.Lossless
import Reckon.Proofs.Sheet.Lifetime
import Reckon.Proofs.Sheet.Order
import Reckon.Proofs.Grammar.Phrase
import Reckon.Proofs.Markup.Exponents
import Reckon.Proofs.Window.Fresh
import Reckon.Proofs.Window.Style
import Reckon.Proofs.Window.Dialog
import Reckon.Proofs.Decimal.SixDigits
import Reckon.Proofs.Window.Fields
import Reckon.Proofs.Settings.Fallback
import Reckon.Proofs.Display.Places
import Reckon.Proofs.Display.Fraction
import Reckon.Proofs.Name.Longest
import Reckon.Proofs.Token.Tiling
import Reckon.Proofs.Expr.Product
import Reckon.Proofs.Expr.Folding
import Reckon.Proofs.Expr.Powers
import Reckon.Proofs.Grammar.Beginning
import Reckon.Proofs.Grammar.Brackets
import Reckon.Proofs.Expr.Agreement
import Reckon.Proofs.Grammar.Blanks
import Reckon.Proofs.Markup.Carets
import Reckon.Proofs.Markup.Indices
import Reckon.Proofs.Settings.Failure
import Reckon.Proofs.Window.Clipboard
