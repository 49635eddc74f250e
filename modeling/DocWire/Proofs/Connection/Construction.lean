import DocWire.Pool.Workshop
import DocWire.Proofs.Connection.Loans

namespace DocWire

variable {ω α ε ρ κ : Type}

namespace Manager

section

variable {manager : Manager (StateM ω) ρ ε} {w w' after : ω} {reason : ε}

end

end Manager

namespace PoolDirectory

end PoolDirectory

namespace Pool

end Pool

end DocWire
