import AgenticPlatform.Basics
import AgenticPlatform.LinkedTree
import Mathlib.Data.List.SplitOn

/-!
# Paths of a POSIX file system

`PurePosixPath` is text cut at its slashes, and `Path.resolve` follows it through the
links of a file tree. What does not exist is taken as a directory that may be created.
-/

namespace AgenticPlatform

open LinkedTree

/-! ### Pure paths -/

/-- What a path starts with: exactly two slashes are a root of their own. -/
inductive Anchor where
  | relative
  | root
  | doubled
deriving DecidableEq, Repr

/-- `PurePosixPath`; `..` is kept. -/
structure PosixPath where
  anchor : Anchor
  parts : List (Step String)
deriving DecidableEq, Repr

namespace PosixPath

/-- One part of a text between slashes; an empty one and `.` are dropped. -/
def stepOf (name : String) : Option (Step String) :=
  if name = "" ∨ name = "." then none
  else if name = ".." then some .up
  else some (.down name)

def stepsOf (text : String) : List (Step String) :=
  (text.toList.splitOn '/').filterMap fun name => stepOf (String.ofList name)

def anchorOf (text : String) : Anchor :=
  match text.toList with
  | '/' :: '/' :: '/' :: _ => .root
  | '/' :: '/' :: _ => .doubled
  | '/' :: _ => .root
  | _ => .relative

def parse (text : String) : PosixPath := ⟨anchorOf text, stepsOf text⟩

def isAbsolute (path : PosixPath) : Bool := path.anchor ≠ .relative

/-- `base / text`: an absolute text replaces the base. -/
def join (base : PosixPath) (text : String) : PosixPath :=
  if (parse text).isAbsolute then parse text else ⟨base.anchor, base.parts ++ stepsOf text⟩

/-- `path.relative_to(other)` does not raise. -/
def isRelativeTo (path other : PosixPath) : Bool :=
  path.anchor = other.anchor ∧ other.parts <+: path.parts

def hasNull (path : PosixPath) : Bool :=
  path.parts.any fun
    | .up => false
    | .down name => decide ('\x00' ∈ name.toList)

/-- The path from the root to a place. -/
def ofPlace (place : List String) : PosixPath := ⟨.root, place.reverse.map .down⟩

end PosixPath

/-! ### The file tree -/

/-- What sits at a place. -/
inductive Node where
  | file (content : String)
  | directory
  | link (text : String)
deriving DecidableEq, Repr

def targetOf : Node → Option (Target String)
  | .link text => some ⟨(PosixPath.parse text).isAbsolute, PosixPath.stepsOf text⟩
  | .file _ | .directory => none

/-- A file tree as a process sees it. What exists sits in a directory. There are finitely
    many links, and none on the way to the directory that the process is in. -/
structure FileTree where
  node : List String → Option Node
  links : List (List String)
  cwd : List String
  top : node [] = some .directory
  rooted : ∀ name place, node (name :: place) ≠ none → node place = some .directory
  listed : ∀ place text, node place = some (.link text) → place ∈ links
  cwd_plain : Plain (fun place => (node place).bind targetOf) cwd

/-- Why a path is not resolved. -/
inductive PathError where
  | valueError
  | runtimeError
deriving DecidableEq, Repr

namespace FileTree

variable {tree : FileTree} {path : PosixPath} {place other root : List String}

def target (tree : FileTree) (place : List String) : Option (Target String) :=
  (tree.node place).bind targetOf

/-- Where a path starts. -/
def origin (tree : FileTree) (path : PosixPath) : List String :=
  if path.isAbsolute then [] else tree.cwd

/-- The path leads to the place. The kernel takes no path with a null character. -/
def Denotes (tree : FileTree) (path : PosixPath) (place : List String) : Prop :=
  path.hasNull = false ∧ Leads tree.target (tree.origin path) path.parts place

/-- `path.resolve()`. A circle of links is a `RuntimeError`. -/
def resolve (tree : FileTree) (path : PosixPath) : Except PathError PosixPath :=
  if path.hasNull then .error .valueError
  else
    match walk tree.target tree.links.length (tree.origin path) path.parts with
    | some place => .ok (.ofPlace place)
    | none => .error .runtimeError

/-! ### Resolving -/

theorem target_ne_none (h : tree.target place ≠ none) : place ∈ tree.links := by
  rcases hnode : tree.node place with - | node
  · simp [target, hnode] at h
  · rcases node with content | - | text
    · simp [target, hnode, targetOf] at h
    · simp [target, hnode, targetOf] at h
    · exact tree.listed place text hnode

theorem walk_eq_some_iff : walk tree.target tree.links.length (tree.origin path) path.parts = some place ↔
    Leads tree.target (tree.origin path) path.parts place := by
  constructor
  · exact leads_of_walk
  · intro h
    have hdomain : ∀ place, tree.target place ≠ none → place ∈ tree.links.toFinset :=
      fun place hlink => List.mem_toFinset.mpr (target_ne_none hlink)
    exact walk_mono ((walk_iff_leads hdomain).mpr h) (List.toFinset_card_le tree.links)

/-- Resolving returns the place that the path leads to. -/
theorem resolve_of_denotes (h : tree.Denotes path place) : tree.resolve path = .ok (.ofPlace place) := by
  rcases h with ⟨hnull, hleads⟩
  simp only [resolve, hnull, walk_eq_some_iff.mpr hleads, if_neg Bool.false_ne_true]

theorem denotes_of_resolve {resolved : PosixPath} (h : tree.resolve path = .ok resolved) :
    ∃ place, tree.Denotes path place ∧ resolved = .ofPlace place := by
  rw [resolve] at h
  split at h
  · cases h
  · rename_i hnull
    split at h
    · rename_i place hwalk
      cases h
      exact ⟨place, ⟨Bool.eq_false_iff.mpr hnull, walk_eq_some_iff.mp hwalk⟩, rfl⟩
    · cases h

theorem Denotes.unique (h : tree.Denotes path place) (hother : tree.Denotes path other) :
    place = other :=
  h.2.unique hother.2

theorem Denotes.plain (h : tree.Denotes path place) : Plain tree.target place := by
  refine h.2.plain ?_
  rw [origin]
  split
  · exact trivial
  · exact tree.cwd_plain

/-- A resolved path leads to the place it was made of, and nowhere else. -/
theorem denotes_ofPlace (hplain : Plain tree.target place)
    (h : tree.Denotes (.ofPlace place) other) : other = place :=
  h.2.unique hplain.leads

end FileTree

theorem PosixPath.isRelativeTo_ofPlace {place root : List String} :
    (ofPlace place).isRelativeTo (ofPlace root) = true ↔ root <:+ place := by
  simp only [isRelativeTo, ofPlace, decide_eq_true_eq, true_and]
  rw [List.prefix_map_iff_of_injective, List.reverse_prefix]
  intro a b h
  cases h
  rfl

end AgenticPlatform
