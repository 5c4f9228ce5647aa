import Nqvpn.DataSession
import Nqvpn.NetFrame

/-!
# Admission and expiry

Verification admits a credential until `leewaySecs` after it expires. A relay ends
a session at the end of that leeway, the coordinator's sweep already at the expiry
itself, so the two agree on a credential exactly as long as it has not expired.
-/

namespace Nqvpn

/-- The session was admitted, or last refreshed, with these claims. -/
structure Session.Carries (s : Session) (c : Claims) : Prop where
  nodeId : s.nodeId = c.nodeId
  role : s.role = c.role
  exp : s.exp = c.exp
  loginGen : s.loginGen = c.loginGen

@[inherit_doc Session.Carries]
structure DataSession.Carries (s : DataSession) (c : Claims) : Prop where
  nodeId : s.claims.nodeId = c.nodeId
  role : s.claims.role = c.role
  exp : s.exp = c.exp
  loginGen : s.loginGen = c.loginGen

namespace NetState

variable (ns : NetState) (s : Session)

end NetState

variable {K : Type} (codec : TokenCodec) (verifyStrict : K → Text → List UInt8 → Bool)

end Nqvpn
