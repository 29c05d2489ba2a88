import MathMarkup.Certificate.Basic

/-!
# Reloading certificates

A server reads its certificate and key from two files and reads them again when one of them changes.
The files are replaced by someone else at any time, also between the moments at which the server
looks at them: it asks for the two modification times, reads one file after the other and puts the
result in place. `Reloader.step` gives the state after such a moment.
-/

namespace MathMarkup.Certificate

open Time (Instant)

/-- What a certificate file holds. -/
inductive CertificateText where
  | garbage
  | certificate (c : Certificate)
deriving DecidableEq, Repr

/-- What a key file holds. -/
inductive KeyText where
  | garbage
  | key (pair : Nat)
deriving DecidableEq, Repr

/-- A file as it is at some time: its modification time and what it holds. -/
structure Version (α : Type) where
  modified : Nat
  content : α
deriving DecidableEq, Repr

/-- The two files, each of which may be missing. -/
structure PairFiles where
  certificate : Option (Version CertificateText) := none
  key : Option (Version KeyText) := none
deriving DecidableEq, Repr

/-- The names of the two files. -/
structure PairPaths where
  certificate : Text := "cert.pem"
  key : Text := "key.pem"

namespace PairFiles

/-- The fault of a file that is not there. -/
def missing (operation path : Text) : Fault := [.file operation path .notExist]

/-- A fault of reading the pair. -/
def pairFault (f : Fault) : Fault := .note "failed to load certificate pair" :: f

/-- What the certificate file holds. -/
def readCertificate (p : PairPaths) (fs : PairFiles) : Except Fault CertificateText :=
  match fs.certificate with
  | some v => .ok v.content
  | none => .error (pairFault (missing "open" p.certificate))

/-- What the key file holds. -/
def readKey (p : PairPaths) (fs : PairFiles) : Except Fault KeyText :=
  match fs.key with
  | some v => .ok v.content
  | none => .error (pairFault (missing "open" p.key))

/-- The certificate of two texts; the key has to belong to the certificate. -/
def pair (certificate : CertificateText) (key : KeyText) : Except Fault Certificate :=
  match certificate, key with
  | .garbage, _ =>
    .error (pairFault [.plain "tls: failed to find any PEM data in certificate input"])
  | _, .garbage => .error (pairFault [.plain "tls: failed to find any PEM data in key input"])
  | .certificate c, .key pair =>
    if pair = c.keyPair then .ok c
    else .error (pairFault [.plain "tls: private key does not match public key"])

/-- Reads both files, one after the other. -/
def read (p : PairPaths) (fs : PairFiles) : Except Fault Certificate := do
  let certificate ← fs.readCertificate p
  let key ← fs.readKey p
  pair certificate key

end PairFiles

/-- How far a reload has come: the modification times it saw, and what it has read since. -/
inductive Progress where
  | idle
  | sawCertificate (certificate : Nat)
  | sawBoth (certificate key : Nat)
  | hasText (certificate key : Nat) (text : CertificateText)
  | hasRead (certificate key : Nat) (c : Certificate)
deriving DecidableEq, Repr

/-- The state of a server's certificate. -/
structure Reloader where
  served : Option Certificate := none
  /-- The modification times that were recorded with the served certificate. -/
  certificateTime : Option Nat := none
  keyTime : Option Nat := none
  progress : Progress := .idle
deriving DecidableEq, Repr

namespace Reloader

/-- The moments of a reload. -/
inductive Moment where
  | statCertificate
  | statKey
  | readCertificate
  | readKey
  | install
deriving DecidableEq, Repr

/-- The reloader after a moment of a reload that sees the files as they are then, or the fault that
ends the reload. A moment out of turn changes nothing. -/
def step (p : PairPaths) (now : Instant) (fs : PairFiles) (r : Reloader) :
    Moment → Except Fault Reloader
  | .statCertificate =>
    match fs.certificate with
    | some v => .ok { r with progress := .sawCertificate v.modified }
    | none => .error (PairFiles.missing "stat" p.certificate)
  | .statKey =>
    match r.progress, fs.key with
    | .sawCertificate c, some v => .ok { r with progress := .sawBoth c v.modified }
    | .sawCertificate _, none => .error (PairFiles.missing "stat" p.key)
    | _, _ => .ok r
  | .readCertificate =>
    match r.progress with
    | .sawBoth c k => do
      let text ← fs.readCertificate p
      pure { r with progress := .hasText c k text }
    | _ => .ok r
  | .readKey =>
    match r.progress with
    | .hasText c k text => do
      let certificate ← PairFiles.pair text (← fs.readKey p)
      certificate.validateAt now
      pure { r with progress := .hasRead c k certificate }
    | _ => .ok r
  | .install =>
    match r.progress with
    | .hasRead c k certificate =>
      .ok { served := some certificate, certificateTime := some c, keyTime := some k }
    | _ => .ok r

/-- The reloader after a fault: what it serves stays. -/
def abandoned (r : Reloader) : Reloader := { r with progress := .idle }

/-- A whole reload during which the files do not change. -/
def reload (p : PairPaths) (now : Instant) (fs : PairFiles) (r : Reloader) :
    Except Fault Reloader :=
  [Moment.statCertificate, .statKey, .readCertificate, .readKey, .install].foldlM (step p now fs) r

/-- Whether one of two modification times is not the recorded one. -/
def isOutdated (r : Reloader) (certificate key : Nat) : Bool :=
  some certificate != r.certificateTime || some key != r.keyTime

/-- Whether a file that is there has another time than the recorded one. -/
def needsReload (fs : PairFiles) (r : Reloader) : Bool :=
  match fs.certificate, fs.key with
  | some c, some k => r.isOutdated c.modified k.modified
  | _, _ => false

/-- Looks at the files once and reloads them if they have changed; a failure keeps the served
certificate. -/
def poll (p : PairPaths) (now : Instant) (fs : PairFiles) (r : Reloader) : Reloader :=
  if needsReload fs r then
    match reload p now fs r with
    | .ok r => r
    | .error _ => r.abandoned
  else r

/-- The certificate for a connection. -/
def current (r : Reloader) : Except Fault Certificate :=
  match r.served with
  | some c => .ok c
  | none => .error [.plain "no certificate loaded"]

/-- What is logged about a served certificate: a level and a message. -/
def report (c : Certificate) (now : Instant) : Text × Text :=
  if c.expiresSoon now then ("WARN", "certificate expiring soon")
  else ("DEBUG", "certificate loaded")

end Reloader

end MathMarkup.Certificate
