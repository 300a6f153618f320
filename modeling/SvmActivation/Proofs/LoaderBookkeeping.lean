import Mathlib.Data.List.Induction
import SvmActivation.Proofs.EferRoundTrip
import SvmActivation.Proofs.StageVisits

namespace SvmActivation

open Program

namespace Outcome

end Outcome

namespace Loader

end Loader

namespace Session

variable {s : Session} {h : Handle} {l : Loader} {commands : List Command}

end Session

end SvmActivation
