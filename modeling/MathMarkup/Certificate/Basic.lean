import MathMarkup.Config.Basic
import MathMarkup.Failure.Fault
import MathMarkup.Time.Instant

/-!
# Certificates

What a server has to know of a certificate: whom it names, when it is valid, and which key belongs
to it. The versions of the protocol that a listener accepts are here too.
-/

namespace MathMarkup

open Time (Instant Stamp Duration)

/-- A certificate. -/
structure Certificate where
  commonName : Text
  notBefore : Stamp
  notAfter : Stamp
  /-- The key pair it was made for. -/
  keyPair : Nat
deriving DecidableEq, Repr

namespace Certificate

/-- How close to its end a certificate gives rise to a warning. -/
def warningWindow : Duration := Duration.hours (30 * 24)

/-- Checks that a time lies within the validity of a certificate. -/
def validateAt (c : Certificate) (now : Instant) : Except Fault Unit :=
  if now < c.notBefore.instant then
    .error [.plain ("certificate is not yet valid (valid from " ++ c.notBefore.secondsText ++ ")")]
  else if c.notAfter.instant < now then
    .error [.plain ("certificate expired on " ++ c.notAfter.secondsText)]
  else .ok ()

/-- Whether a certificate ends soon. -/
def expiresSoon (c : Certificate) (now : Instant) : Bool :=
  c.notAfter.instant.sub now < warningWindow

/-! ## Protocol versions -/

/-- The versions of the protocol that are offered. -/
inductive ProtocolVersion where
  | v12
  | v13
deriving DecidableEq, Repr

/-- The number of a version on the wire. -/
def ProtocolVersion.number : ProtocolVersion → Nat
  | v12 => 0x0303
  | v13 => 0x0304

/-- Reads a version; no version is the older one. -/
def ProtocolVersion.read (t : Text) : Except Fault ProtocolVersion :=
  if t.isEmpty || t == Text.ofString "1.2" then .ok .v12
  else if t == Text.ofString "1.3" then .ok .v13
  else .error [.plain ("unsupported TLS version " ++ t.quote ++ " (want 1.2 or 1.3)")]

/-- The least version a listener accepts, if connections are to be encrypted. Certificates have to
come from somewhere. -/
def listenerVersion (c : TlsConfig) (hasReloader : Bool) : Except Fault (Option ProtocolVersion) :=
  if !c.enabled then .ok none
  else if !hasReloader then
    .error [.plain "TLS is enabled but no certificate reloader was given"]
  else (ProtocolVersion.read c.minVersion).map some

end Certificate

end MathMarkup
