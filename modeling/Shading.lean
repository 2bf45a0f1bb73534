import Shading.CommandLine
import Shading.Main
import Shading.Proofs.PrunedText
import Shading.Proofs.ViewIndex
import Shading.Proofs.DefineRuns
import Shading.Proofs.CommentBlindness
import Shading.Proofs.LineEndings
import Shading.Proofs.Tiling
import Shading.Proofs.ExactRenaming
import Shading.Proofs.WrittenManifest
import Shading.Proofs.ManifestRuns
import Shading.Proofs.WrittenDefines
import Shading.Proofs.DefineDirectives
import Shading.Proofs.DeclaredUses
import Shading.Proofs.SingleRuns
import Shading.Proofs.HexLiterals
import Shading.Proofs.DirectiveLines
import Shading.Proofs.SpelledManifest
import Shading.Proofs.CheckedEdits
import Shading.Proofs.OpenComments
import Shading.Proofs.ManifestPaths
