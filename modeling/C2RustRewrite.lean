import C2RustRewrite.Rewrite
import C2RustRewrite.ExprGrammar
import C2RustRewrite.Concrete
import C2RustRewrite.RoundTrip
import C2RustRewrite.Parens
import C2RustRewrite.TyGrammar
import C2RustRewrite.ApplyRewrites
import C2RustRewrite.Mir
import C2RustRewrite.MirOp
import C2RustRewrite.MirOpWriter
import C2RustRewrite.MirOpRun
import C2RustRewrite.MirOpEmits
import C2RustRewrite.MirOpContract
import C2RustRewrite.MirOpPanics
import C2RustRewrite.MirOpCalls
import C2RustRewrite.MirOpSlots
import C2RustRewrite.MirOpCasts
import C2RustRewrite.Unlower
import C2RustRewrite.UnlowerMap
import C2RustRewrite.JoinKey
import C2RustRewrite.PanicDetail
