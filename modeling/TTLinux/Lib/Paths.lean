import Mathlib.Data.List.DropRight
import TTLinux.Lib.Bytes

/-!
# Paths

How a kernel finds the file that a path names: the components between the slashes are looked up one after the
other, symbolic links on the way are followed, and a path that ends in a slash names a directory. A path without
a slash in front starts in the working directory.
-/

set_option autoImplicit false

namespace TTLinux.Lib

/-- `/`. -/
def slash : UInt8 := 47

/-! ## Components -/

/-- The components of a path. -/
def components (p : Bytes) : List Bytes := (p.splitOn slash).filter (· ≠ [])

/-- A component: it is not empty and has no slash. -/
structure IsComponent (name : Bytes) : Prop where
  nonempty : name ≠ []
  noSlash : slash ∉ name

/-- INTERNAL: the components of two paths with a slash between them. -/
theorem components_append (a b : Bytes) : components (a ++ slash :: b) = components a ++ components b := by
  have hsplit : (a ++ slash :: b).splitOn slash = a.splitOn slash ++ b.splitOn slash :=
    List.splitOnP_append_cons a b (beq_self_eq_true slash)
  unfold components
  rw [hsplit, List.filter_append]

/-- INTERNAL: a component is its only one. -/
theorem components_of_component (name : Bytes) (h : IsComponent name) : components name = [name] := by
  have hsplit : name.splitOn slash = [name] := by
    apply List.splitOnP_eq_singleton
    intro b hb
    rw [beq_eq_false_iff_ne]
    rintro rfl
    exact h.noSlash hb
  unfold components
  rw [hsplit]
  simp [h.nonempty]

/-- INTERNAL: the components of a file in a directory. -/
theorem components_child (p name : Bytes) (h : IsComponent name) :
    components (p ++ slash :: name) = components p ++ [name] := by
  rw [components_append, components_of_component name h]

/-- INTERNAL: a path that does not end in a slash ends in a component. -/
theorem last_component (p : Bytes) (hp : p ≠ []) (hend : p.getLast? ≠ some slash) :
    ∃ name, IsComponent name ∧ (p = name ∨ ∃ q, p = q ++ slash :: name) := by
  have hname : p.rtakeWhile (· ≠ slash) ≠ [] := by
    intro hnil
    rw [List.rtakeWhile_eq_nil_iff] at hnil
    have hlast := hnil hp
    rw [decide_eq_true_eq, not_not] at hlast
    exact hend ((List.getLast?_eq_some_getLast hp).trans (congrArg some hlast))
  have hcomponent : IsComponent (p.rtakeWhile (· ≠ slash)) := by
    refine ⟨hname, fun hmem => ?_⟩
    have hne := List.mem_rtakeWhile_imp hmem
    rw [decide_eq_true_eq] at hne
    exact hne rfl
  have hsplit : p.rdropWhile (· ≠ slash) ++ p.rtakeWhile (· ≠ slash) = p := List.rdropWhile_append_rtakeWhile
  refine ⟨_, hcomponent, ?_⟩
  rcases List.eq_nil_or_concat' (p.rdropWhile (· ≠ slash)) with hnil | ⟨q, b, hq⟩
  · left
    rw [hnil, List.nil_append] at hsplit
    exact hsplit.symm
  · right
    have hb : b = slash := by
      have hne : p.rdropWhile (· ≠ slash) ≠ [] := by rw [hq]; simp
      have hlast := List.rdropWhile_last_not (· ≠ slash) p hne
      have hget : (p.rdropWhile (· ≠ slash)).getLast hne = b := by simp only [hq, List.getLast_append_singleton]
      rw [hget, decide_eq_true_eq, not_not] at hlast
      exact hlast
    refine ⟨q, ?_⟩
    rw [hq, hb, List.append_assoc] at hsplit
    exact hsplit.symm

/-- The files of a system: the entries of directories, and where symbolic links lead to. -/
structure Namespace (N : Type) where
  root : N
  entry : N → Bytes → Option N
  follow : N → Option N
  isDir : N → Bool

namespace Namespace

variable {N : Type} (ns : Namespace N)

/-- The directory that a component leads to. -/
def enter (d : N) (name : Bytes) : Option N := ((ns.entry d name).bind ns.follow).filter ns.isDir

/-- The directory that components lead to. -/
def walk (d : N) (names : List Bytes) : Option N := names.foldlM ns.enter d

/-- Where a path starts. -/
def origin (d : N) (p : Bytes) : N := if p.head? = some slash then ns.root else d

/-- The directory that a path names, for a process in the directory `d`. -/
def locate (d : N) (p : Bytes) : Option N := if p = [] then none else ns.walk (ns.origin d p) (components p)

/-- The directory in which the last component of a path is looked up. -/
def container (d : N) (p : Bytes) : Option N := ns.walk (ns.origin d p) (components p).dropLast

/-- The file that a component names; a symbolic link may be followed. -/
def look (follow : Bool) (d : N) (name : Bytes) : Option N :=
  if follow then (ns.entry d name).bind ns.follow else ns.entry d name

/-- The file that a path names, for a process in the directory `d`; a symbolic link at its end may be followed,
and is so in front of a slash. -/
def resolve (follow : Bool) (d : N) (p : Bytes) : Option N :=
  if p.getLast? = some slash then ns.locate d p
  else (components p).getLast?.bind fun name => (ns.container d p).bind fun e => ns.look follow e name

/-- INTERNAL: walking along two lists of names. -/
theorem walk_append (d : N) (a b : List Bytes) : ns.walk d (a ++ b) = (ns.walk d a).bind (ns.walk · b) :=
  List.foldlM_append

/-- INTERNAL: and along one more name. -/
theorem walk_concat (d : N) (names : List Bytes) (name : Bytes) :
    ns.walk d (names ++ [name]) = (ns.walk d names).bind (ns.enter · name) := by
  rw [walk_append]
  apply Option.bind_congr
  intro e _
  simp [walk]

/-- INTERNAL: where a path starts depends on its beginning. -/
theorem origin_append (d : N) (p q : Bytes) (h : p ≠ []) : ns.origin d (p ++ q) = ns.origin d p := by
  unfold origin
  rw [List.head?_append_of_ne_nil p h]

/-- INTERNAL: a path with a slash in front does not depend on the working directory. -/
theorem locate_absolute (d e : N) (p : Bytes) (h : p.head? = some slash) : ns.locate d p = ns.locate e p := by
  unfold locate origin
  rw [if_pos h, if_pos h]

/-- INTERNAL: a component is looked up in the working directory. -/
theorem locate_component (d : N) (name : Bytes) (h : IsComponent name) : ns.locate d name = ns.enter d name := by
  have horigin : ns.origin d name = d := by
    apply if_neg
    intro hhead
    exact h.noSlash (List.mem_of_head? hhead)
  unfold locate
  rw [if_neg h.nonempty, horigin, components_of_component name h]
  simp [walk]

/-- INTERNAL: a component behind a path is looked up in the directory that the path names. -/
theorem locate_child (d : N) (p name : Bytes) (hp : p ≠ []) (h : IsComponent name) :
    ns.locate d (p ++ slash :: name) = (ns.locate d p).bind (ns.enter · name) := by
  unfold locate
  rw [if_neg (by simp), if_neg hp, ns.origin_append d p _ hp, components_child p name h, walk_concat]

/-- INTERNAL: the directory that contains a child is that of the path. -/
theorem container_child (d : N) (p name : Bytes) (hp : p ≠ []) (h : IsComponent name) :
    ns.container d (p ++ slash :: name) = ns.locate d p := by
  unfold container locate
  rw [if_neg hp, ns.origin_append d p _ hp, components_child p name h, List.dropLast_concat]

/-- INTERNAL: a path that does not end in a slash is a component behind its directory. -/
theorem resolve_of_container (follow : Bool) (d e : N) (p name : Bytes) (hp : p.getLast? ≠ some slash)
    (hname : (components p).getLast? = some name) (he : ns.container d p = some e) :
    ns.resolve follow d p = ns.look follow e name := by
  unfold resolve
  rw [if_neg hp, hname, he]
  rfl

/-- INTERNAL: a component does not end with a slash. -/
theorem getLast_component (name : Bytes) (h : IsComponent name) : name.getLast? ≠ some slash :=
  fun hlast => h.noSlash (List.mem_of_getLast? hlast)

/-- INTERNAL: a file without a slash is in the working directory. -/
theorem container_component (d : N) (name : Bytes) (h : IsComponent name) : ns.container d name = some d := by
  have horigin : ns.origin d name = d := by
    apply if_neg
    intro hhead
    exact h.noSlash (List.mem_of_head? hhead)
  unfold container
  rw [horigin, components_of_component name h]
  rfl

/-- INTERNAL: a component names a file in the working directory. -/
theorem resolve_component (follow : Bool) (d : N) (name : Bytes) (h : IsComponent name) :
    ns.resolve follow d name = ns.look follow d name := by
  have hname : (components name).getLast? = some name := by
    rw [components_of_component name h]
    rfl
  exact ns.resolve_of_container follow d d name name (getLast_component name h) hname (ns.container_component d name h)

/-- INTERNAL: the directory that a path names is entered from the one that contains it. -/
theorem locate_of_container (d e : N) (p name : Bytes) (hp : p ≠ []) (hname : (components p).getLast? = some name)
    (he : ns.container d p = some e) : ns.locate d p = ns.enter e name := by
  obtain ⟨names, hnames⟩ := List.getLast?_eq_some_iff.mp hname
  unfold container at he
  rw [hnames, List.dropLast_concat] at he
  unfold locate
  rw [if_neg hp, hnames, walk_concat, he]
  rfl

/-- INTERNAL: only directories can be entered. -/
theorem isDir_of_enter {d e : N} {name : Bytes} (h : ns.enter d name = some e) : ns.isDir e = true :=
  (Option.filter_eq_some_iff.mp h).2

end Namespace

end TTLinux.Lib
