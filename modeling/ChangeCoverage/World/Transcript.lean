import ChangeCoverage.Text.Number
import ChangeCoverage.World.Recording
import ChangeCoverage.Yaml.Node

/-!
Recorded worlds as YAML documents: the `root` of a tree, the content of its
`files`, a `directory` in it to start from, the `time`, and for `git` the
arguments, output and exit code of each call.
-/

namespace ChangeCoverage.Recording

open Yaml (Node)

def member? (name : String) : Node → Option Node
  | .mapping _ entries =>
      (entries.find? fun entry => match entry.1 with
        | .scalar _ _ text => text = name.toList
        | _ => false).map (·.2)
  | _ => none

def scalar? : Node → Option Text
  | .scalar _ _ text => some text
  | _ => none

def items? : Node → Option (List Node)
  | .sequence _ items => some items
  | _ => none

def textMember (name : String) (missing : Text) (node : Node) : Option Text :=
  match member? name node with
  | some value => scalar? value
  | none => some missing

def bytes (text : Text) : List UInt8 :=
  (String.ofList text).toUTF8.toList

def placeOf (path : Text) : Place :=
  (namesOf path).filter (· ≠ ['.'])

def fileOf? (root : Place) : Node × Node → Option (Place × Entry)
  | (.scalar _ _ path, .scalar _ style content) =>
      some (root ++ placeOf path,
        if style = .plain && content.isEmpty then .directory else .file (bytes content))
  | _ => none

def filesOf? (root : Place) : Option Node → Option (List (Place × Entry))
  | none => some []
  | some (.mapping _ entries) => entries.mapM (fileOf? root)
  | some _ => none

def replyOf? (node : Node) : Option (List Text × Git.Reply) := do
  let arguments ← (← (member? "arguments" node).bind items?).mapM scalar?
  let stdout ← textMember "stdout" [] node
  let stderr ← textMember "stderr" [] node
  let exitCode ← textMember "code" ['0'] node
  return (arguments,
    { stdout := bytes stdout, stderr := bytes stderr, exitCode := Text.number? 256 exitCode })

def unrecorded : Git.Reply :=
  { stderr := bytes "not on record".toList, exitCode := some 128 }

def gitOf? : Option Node → Option (Option (List Text → Git.Reply))
  | none => some none
  | some node => do
      let replies ← (← items? node).mapM replyOf?
      return some fun arguments => (replies.lookup arguments).getD unrecorded

def ofNode? (node : Node) : Option Recording := do
  let root := placeOf (← textMember "root" [] node)
  let entries ← filesOf? root (member? "files" node)
  let directory ← textMember "directory" [] node
  let time ← textMember "time" [] node
  let git? ← gitOf? (member? "git" node)
  return {
    tree := { entries := entries ++ [(root, .directory)] }
    workingDirectory := root ++ placeOf directory
    time, git? }

def parse? (transcript : Text) : Option Recording := do
  let document ← (← Yaml.Document.parse? transcript)
  ofNode? document.root

end ChangeCoverage.Recording
