import ChangeCoverage.Config.Basic

/-!
What the program can be asked to do.
-/

namespace ChangeCoverage

structure Revisions where
  old : Text
  new : Text
  deriving DecidableEq, Repr

inductive Command where
  | listing (revisions : Revisions)
  /-- Show one file at both revisions, side by side. -/
  | view (revisions : Revisions) (path : Text) (format : Option OutputFormat)
      (width : Option Nat)
  /-- Report the cases of changed branches, of all files or of those named. -/
  | cases (revisions : Revisions) (paths : List Text) (format : Option OutputFormat)
  deriving DecidableEq, Repr

def Command.revisions : Command → Revisions
  | listing revisions => revisions
  | view revisions _ _ _ => revisions
  | cases revisions _ _ => revisions

structure Request where
  /-- The directory to work in, unless it is the working directory. -/
  directory : Option Text
  /-- How often diagnostic output was asked for. -/
  verbosity : Nat
  command : Command
  deriving DecidableEq, Repr

end ChangeCoverage
