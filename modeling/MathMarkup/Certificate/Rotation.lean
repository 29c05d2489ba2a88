import MathMarkup.Certificate.Reload

/-!
# Rotation of certificates

The two files of a pair are replaced one by one, at any time, while the server looks at them. Any
number of reloads may be under way, each with what it has seen so far, and so may checks of whether
a reload is needed; they share what is served and the times that were recorded with it.
`Rotation.step?` gives the state after a moment at which a file is replaced or one of them takes a
step.
-/

namespace MathMarkup.Certificate

open Time (Instant)

/-- A file and all the modification times it has had. -/
structure Trail (α : Type) where
  current : Option (Version α)
  times : List Nat
  recorded : ∀ v ∈ current, v.modified ∈ times
deriving DecidableEq

namespace Trail

variable {α : Type}

/-- The trail of a file of which nothing earlier is known. -/
def start (file : Option (Version α)) : Trail α where
  current := file
  times := (file.map (·.modified)).toList
  recorded v hv := by
    cases Option.mem_def.mp hv
    exact List.mem_singleton.mpr rfl

/-- The file is replaced; its modification time is one that it never had. -/
def replace? (f : Trail α) (v : Version α) : Option (Trail α) :=
  if v.modified ∈ f.times then none
  else
    some
      { current := some v
        times := v.modified :: f.times
        recorded := fun w hw => by
          cases Option.mem_def.mp hw
          exact List.mem_cons_self }

/-- The file is removed. -/
def remove (f : Trail α) : Trail α where
  current := none
  times := f.times
  recorded := fun _ hv => absurd hv (by simp)

end Trail

/-- How far a check of whether a reload is needed has come. -/
inductive Check where
  | begun
  | sawCertificate (certificate : Nat)
  | sawBoth (certificate key : Nat)
  | answered (needed : Bool)
deriving DecidableEq, Repr

/-- The next moment of a check. A file that is not there ends it. -/
def Check.next (fs : PairFiles) (r : Reloader) : Check → Check
  | begun =>
    match fs.certificate with
    | some v => sawCertificate v.modified
    | none => answered false
  | sawCertificate c =>
    match fs.key with
    | some v => sawBoth c v.modified
    | none => answered false
  | sawBoth c k => answered (r.isOutdated c k)
  | answered needed => answered needed

/-- A pair of files, the reloader that serves from them, and the reloads and checks under way, in
the order in which they were begun. Each reload has its own progress; that of the reloader is left
alone. -/
structure Rotation where
  certificate : Trail CertificateText
  key : Trail KeyText
  reloader : Reloader := {}
  reloads : List Progress := []
  checks : List Check := []
deriving DecidableEq

namespace Rotation

/-- A moment. -/
inductive Event where
  | replaceCertificate (v : Version CertificateText)
  | replaceKey (v : Version KeyText)
  | removeCertificate
  | removeKey
  | beginReload
  /-- The reload at a place comes to a moment. -/
  | reload (place : Nat) (m : Reloader.Moment) (now : Instant)
  | beginCheck
  /-- The check at a place takes its next step. -/
  | check (place : Nat)
deriving DecidableEq

/-- Nothing is loaded yet from two files. -/
def start (fs : PairFiles) : Rotation := ⟨.start fs.certificate, .start fs.key, {}, [], []⟩

/-- The files as they are. -/
def files (x : Rotation) : PairFiles := ⟨x.certificate.current, x.key.current⟩

/-- The reloader as the reload with some progress sees it. -/
def seenBy (x : Rotation) (progress : Progress) : Reloader := { x.reloader with progress }

/-- The state in which the reload at a place has come to where `r` is. -/
def settled (x : Rotation) (place : Nat) (r : Reloader) : Rotation :=
  { x with
    reloader := { r with progress := x.reloader.progress }
    reloads := x.reloads.set place r.progress }

/-- The state after an event, if the event is possible. -/
def step? (p : PairPaths) (x : Rotation) : Event → Option Rotation
  | .replaceCertificate v => (x.certificate.replace? v).map fun f => { x with certificate := f }
  | .replaceKey v => (x.key.replace? v).map fun f => { x with key := f }
  | .removeCertificate => some { x with certificate := x.certificate.remove }
  | .removeKey => some { x with key := x.key.remove }
  | .beginReload => some { x with reloads := x.reloads ++ [.idle] }
  | .reload place m now =>
    x.reloads[place]?.map fun progress =>
      match (x.seenBy progress).step p now x.files m with
      | .ok r => x.settled place r
      | .error _ => x.settled place (x.seenBy progress).abandoned
  | .beginCheck => some { x with checks := x.checks ++ [.begun] }
  | .check place =>
    x.checks[place]?.map fun c =>
      { x with checks := x.checks.set place (c.next x.files x.reloader) }

/-- The state after an event, or as it was if the event is not possible. -/
def after (p : PairPaths) (x : Rotation) (e : Event) : Rotation := (x.step? p e).getD x

/-- The state after a schedule. -/
def run (p : PairPaths) (x : Rotation) (es : List Event) : Rotation := es.foldl (after p) x

end Rotation

end MathMarkup.Certificate
