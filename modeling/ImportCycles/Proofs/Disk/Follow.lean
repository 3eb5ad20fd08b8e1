import ImportCycles.Disk.Basic
import ImportCycles.Proofs.Lookup

namespace ImportCycles

/-- A name that an entry of a directory can have. -/
structure EntryName (name : String) : Prop where
  notHere : name ≠ "."
  notUp : name ≠ ".."
  fits : name.utf8ByteSize ≤ Disk.maxNameBytes
  noNul : Char.ofNat 0 ∉ name.toList

instance (name : String) : Decidable (EntryName name) :=
  decidable_of_iff (name ≠ "." ∧ name ≠ ".." ∧ name.utf8ByteSize ≤ Disk.maxNameBytes ∧
      Char.ofNat 0 ∉ name.toList)
    ⟨fun h => ⟨h.1, h.2.1, h.2.2.1, h.2.2.2⟩, fun h => ⟨h.notHere, h.notUp, h.fits, h.noNul⟩⟩

/-- Names none of which is too long for an entry. -/
def ShortNames (names : List String) : Prop :=
  ∀ name ∈ names, name.utf8ByteSize ≤ Disk.maxNameBytes

instance (names : List String) : Decidable (ShortNames names) :=
  inferInstanceAs (Decidable (∀ name ∈ names, name.utf8ByteSize ≤ Disk.maxNameBytes))

namespace Node

/-- A tree as an operating system keeps it: the names in a directory are entry names, each once. -/
inductive Proper : Node → Prop where
  | file (bytes : List UInt8) : Proper (.file bytes)
  | link (target : String) : Proper (.link target)
  | dir {entries : List (String × Node)} (hdistinct : (entries.map (·.1)).Nodup)
      (hnamed : ∀ entry ∈ entries, EntryName entry.1)
      (hproper : ∀ entry ∈ entries, entry.2.Proper) : Proper (.dir entries)

/-- A tree in which no link asks for a name that is too long. -/
inductive ShortTargets : Node → Prop where
  | file (bytes : List UInt8) : ShortTargets (.file bytes)
  | link {target : String} (hshort : ShortNames (Disk.targetNames target)) :
      ShortTargets (.link target)
  | dir {entries : List (String × Node)} (hshort : ∀ entry ∈ entries, entry.2.ShortTargets) :
      ShortTargets (.dir entries)

variable {top node child : Node} {name target : String} {place more : List String}
  {entries : List (String × Node)}

theorem sizeOf_lt_of_mem (hmem : (name, child) ∈ entries) : sizeOf child < sizeOf (dir entries) := by
  have hsize := List.sizeOf_lt_of_mem hmem
  simp only [Prod.mk.sizeOf_spec] at hsize
  rw [dir.sizeOf_spec]
  omega

mutual

/-- Whether a tree is as an operating system keeps it. -/
def isProper : Node → Bool
  | .dir entries => decide (entries.map (·.1)).Nodup && areProper entries
  | .file _ => true
  | .link _ => true

def areProper : List (String × Node) → Bool
  | [] => true
  | (name, node) :: rest => decide (EntryName name) && isProper node && areProper rest

end

theorem areProper_iff : areProper entries = true ↔
    ∀ entry ∈ entries, EntryName entry.1 ∧ entry.2.isProper = true := by
  induction entries with
  | nil => simp [areProper]
  | cons entry rest ih => simp [areProper, ih, and_assoc]

theorem isProper_iff (node : Node) : node.isProper = true ↔ node.Proper := by
  match node with
  | .file bytes => exact iff_of_true rfl (.file bytes)
  | .link target => exact iff_of_true rfl (.link target)
  | .dir entries =>
    rw [isProper, Bool.and_eq_true, decide_eq_true_iff, areProper_iff]
    constructor
    · rintro ⟨hdistinct, hall⟩
      exact .dir hdistinct (fun entry hmem => (hall entry hmem).1)
        fun entry hmem => (isProper_iff entry.2).mp (hall entry hmem).2
    · intro hproper
      cases hproper with
      | dir hdistinct hnamed hproper =>
        exact ⟨hdistinct, fun entry hmem =>
          ⟨hnamed entry hmem, (isProper_iff entry.2).mpr (hproper entry hmem)⟩⟩
termination_by sizeOf node
decreasing_by all_goals exact sizeOf_lt_of_mem hmem

instance (node : Node) : Decidable node.Proper :=
  decidable_of_iff _ (isProper_iff node)

theorem entry?_eq_some : node.entry? name = some child ↔
    ∃ entries, node = .dir entries ∧ entries.lookup name = some child := by
  unfold entry?
  cases node <;> simp

theorem at?_cons : node.at? (name :: more) = some child ↔
    ∃ next, node.entry? name = some next ∧ next.at? more = some child := by
  rw [at?]
  cases node.entry? name <;> simp

theorem at?_append (top : Node) (place more : List String) :
    top.at? (place ++ more) = (top.at? place).bind (·.at? more) := by
  induction place generalizing top with
  | nil => rfl
  | cons name rest ih =>
    simp only [List.cons_append, at?]
    cases top.entry? name with
    | none => rfl
    | some child => exact ih child

/-- A name on the way to a node is looked up in a directory. -/
theorem exists_parent (hat : top.at? (place ++ name :: more) = some node) :
    ∃ entries child, top.at? place = some (.dir entries) ∧ entries.lookup name = some child ∧
      child.at? more = some node := by
  rw [at?_append] at hat
  obtain ⟨parent, hparent, hbelow⟩ := Option.bind_eq_some_iff.mp hat
  obtain ⟨child, hentry, hmore⟩ := at?_cons.mp hbelow
  obtain ⟨entries, rfl, hlookup⟩ := entry?_eq_some.mp hentry
  exact ⟨entries, child, hparent, hlookup, hmore⟩

/-- What passes from a node to its entries holds everywhere in the tree. -/
theorem at?_induction {holds : Node → Prop}
    (hentry : ∀ node name child, holds node → node.entry? name = some child → holds child)
    (htop : holds top) (hat : top.at? place = some node) : holds node := by
  induction place generalizing top with
  | nil =>
    cases hat
    exact htop
  | cons name rest ih =>
    obtain ⟨child, hchild, hrest⟩ := at?_cons.mp hat
    exact ih (hentry top name child htop hchild) hrest

theorem Proper.entry (hproper : node.Proper) (hentry : node.entry? name = some child) :
    child.Proper := by
  obtain ⟨entries, rfl, hlookup⟩ := entry?_eq_some.mp hentry
  cases hproper with
  | dir _ _ hproper => exact hproper _ (mem_of_lookup hlookup)

theorem Proper.at? (hproper : top.Proper) (hat : top.at? place = some node) : node.Proper :=
  at?_induction (fun _ _ _ => Proper.entry) hproper hat

/-- The names of a place are entry names. -/
theorem Proper.entryName (hproper : top.Proper) (hat : top.at? place = some node) :
    ∀ name ∈ place, EntryName name := by
  intro name hmem
  obtain ⟨before, after, rfl⟩ := List.append_of_mem hmem
  obtain ⟨entries, child, hparent, hlookup, -⟩ := exists_parent hat
  cases hproper.at? hparent with
  | dir _ hnamed => exact hnamed _ (mem_of_lookup hlookup)

theorem ShortTargets.entry (hshort : node.ShortTargets) (hentry : node.entry? name = some child) :
    child.ShortTargets := by
  obtain ⟨entries, rfl, hlookup⟩ := entry?_eq_some.mp hentry
  cases hshort with
  | dir hshort => exact hshort _ (mem_of_lookup hlookup)

theorem ShortTargets.at? (hshort : top.ShortTargets) (hat : top.at? place = some (.link target)) :
    ShortNames (Disk.targetNames target) := by
  cases at?_induction (fun _ _ _ => ShortTargets.entry) hshort hat with
  | link hshort => exact hshort

/-- Where names are distinct an entry is found under its name. -/
theorem Proper.at?_entry (hproper : top.Proper) (hat : top.at? place = some (.dir entries))
    (hmem : (name, node) ∈ entries) : top.at? (place ++ [name]) = some node := by
  cases hproper.at? hat with
  | dir hdistinct =>
    simp [at?_append, hat, Node.at?, Node.entry?, lookup_of_mem hdistinct hmem]

/-- No way leads on through a link. -/
theorem not_link_of_at? (hat : child.at? more = some node) (hlink : ∀ target, node ≠ .link target)
    (target : String) : child ≠ .link target := by
  rintro rfl
  cases more with
  | nil => exact hlink target (Option.some.inj hat).symm
  | cons name rest => simp [at?, Node.entry?] at hat

end Node

namespace Disk

variable {top node : Node} {name : String} {place reached names more : List String}
  {links left : Nat}

/-- The names from one place to another, none of them a link's, lead there. -/
theorem advance_of_at? (hproper : top.Proper) (hat : top.at? (place ++ names) = some node)
    (hlink : ∀ target, node ≠ .link target) :
    advance top place names = .arrived (place ++ names) := by
  induction names generalizing place with
  | nil => simp [advance]
  | cons name rest ih =>
    obtain ⟨entries, child, hparent, hlookup, hrest⟩ := Node.exists_parent hat
    have hname := hproper.entryName hat name (by simp)
    have hchild := Node.not_link_of_at? hrest hlink
    have hnext : advance top (place ++ [name]) rest = .arrived (place ++ [name] ++ rest) :=
      ih (by simpa using hat)
    rw [advance, hparent]
    simp only [if_neg hname.notHere, if_neg hname.notUp, if_neg (Nat.not_lt.mpr hname.fits),
      hlookup]
    cases child with
    | link target => exact absurd rfl (hchild target)
    | file bytes => simpa using hnext
    | dir entries => simpa using hnext

/-- Names are followed in two parts: what is left of the first part goes before the second. -/
theorem advance_append (top : Node) (place names more : List String) :
    advance top place (names ++ more) =
      match advance top place names with
      | .arrived place => advance top place more
      | .link place target rest => .link place target (rest ++ more)
      | .missing place name rest => .missing place name (rest ++ more)
      | .fault reason => .fault reason := by
  induction names generalizing place with
  | nil => simp [advance]
  | cons name rest ih =>
    rw [List.cons_append, advance, advance]
    cases top.at? place with
    | none => rfl
    | some parent =>
      cases parent with
      | file bytes => rfl
      | link target => rfl
      | dir entries =>
        dsimp only
        by_cases hhere : name = "."
        · simpa only [if_pos hhere] using ih place
        by_cases hup : name = ".."
        · simpa only [if_neg hhere, if_pos hup] using ih place.dropLast
        by_cases hlong : maxNameBytes < name.utf8ByteSize
        · simp only [if_neg hhere, if_neg hup, if_pos hlong]
        simp only [if_neg hhere, if_neg hup, if_neg hlong]
        cases entries.lookup name with
        | none => rfl
        | some child =>
          cases child with
          | link target => rfl
          | file bytes => exact ih (place ++ [name])
          | dir entries => exact ih (place ++ [name])

/-- A path may be followed in two parts, the second with the links that the first has left over. -/
theorem follow_append (hfollow : follow top links place names = .found reached left) :
    follow top links place (names ++ more) = follow top left reached more := by
  fun_induction follow top links place names with
  | case1 links place names arrived hadvance =>
    cases hfollow
    rw [follow, advance_append, hadvance]
    conv_rhs => rw [follow]
  | case2 => cases hfollow
  | case3 => cases hfollow
  | case4 => cases hfollow
  | case5 => cases hfollow
  | case6 place names origin target rest hadvance links start ih =>
    rw [follow, advance_append, hadvance]
    simpa only [List.append_assoc] using ih hfollow

/-- A path that leads to a place does so in two parts. -/
theorem exists_of_follow_append
    (hfollow : follow top links place (names ++ more) = .found reached left) :
    ∃ halfway rest, follow top links place names = .found halfway rest ∧
      follow top rest halfway more = .found reached left := by
  fun_induction follow top links place names with
  | case1 links place names arrived hadvance =>
    rw [follow, advance_append, hadvance] at hfollow
    exact ⟨arrived, links, rfl, by rw [follow]; exact hfollow⟩
  | case2 links place names missing name hadvance =>
    rw [follow, advance_append, hadvance] at hfollow
    cases more <;> simp at hfollow
  | case3 links place names missing name rest hrest hadvance =>
    rw [follow, advance_append, hadvance] at hfollow
    cases rest <;> simp at hfollow hrest
  | case4 links place names reason hadvance =>
    rw [follow, advance_append, hadvance] at hfollow
    cases hfollow
  | case5 place names origin target rest hadvance =>
    rw [follow, advance_append, hadvance] at hfollow
    cases hfollow
  | case6 place names origin target rest hadvance links start ih =>
    rw [follow, advance_append, hadvance] at hfollow
    exact ih (by simpa only [List.append_assoc] using hfollow)

theorem left_le_of_follow (hfollow : follow top links place names = .found reached left) :
    left ≤ links := by
  fun_induction follow top links place names with
  | case1 =>
    cases hfollow
    exact Nat.le_refl _
  | case2 => cases hfollow
  | case3 => cases hfollow
  | case4 => cases hfollow
  | case5 => cases hfollow
  | case6 place names origin target rest hadvance links start ih =>
    exact Nat.le_succ_of_le (ih hfollow)

/-- A name that leads somewhere is that of an entry. -/
theorem exists_entry_of_follow (hname : EntryName name)
    (hfollow : follow top links place [name] = .found reached left) :
    ∃ child, top.at? (place ++ [name]) = some child := by
  rw [follow, advance] at hfollow
  cases hparent : top.at? place with
  | none => simp [hparent] at hfollow
  | some parent =>
    rw [hparent] at hfollow
    cases parent with
    | file bytes => simp at hfollow
    | link target => simp at hfollow
    | dir entries =>
      simp only [if_neg hname.notHere, if_neg hname.notUp, if_neg (Nat.not_lt.mpr hname.fits)]
        at hfollow
      cases hlookup : entries.lookup name with
      | none => simp [hlookup] at hfollow
      | some child =>
        exact ⟨child, by simp [Node.at?_append, hparent, Node.at?, Node.entry?, hlookup]⟩

theorem advance_of_link (hproper : top.Proper) {target : String}
    (hat : top.at? (place ++ [name]) = some (.link target)) :
    advance top place [name] = .link place target [] := by
  obtain ⟨entries, child, hparent, hlookup, hrest⟩ := Node.exists_parent hat
  have hname := hproper.entryName hat name (by simp)
  cases hrest
  rw [advance, hparent]
  simp only [if_neg hname.notHere, if_neg hname.notUp, if_neg (Nat.not_lt.mpr hname.fits), hlookup]

/-- A link takes one of the links that may be followed. -/
theorem left_lt_of_link (hproper : top.Proper) {target : String}
    (hat : top.at? (place ++ [name]) = some (.link target))
    (hfollow : follow top links place [name] = .found reached left) : left < links := by
  rw [follow, advance_of_link hproper hat] at hfollow
  cases links with
  | zero => cases hfollow
  | succ links => exact Nat.lt_succ_of_le (left_le_of_follow hfollow)

theorem segments_of_noSlash {cs : List Char} (hnone : '/' ∉ cs) : Path.segments cs = [cs] := by
  induction cs with
  | nil => rfl
  | cons c rest ih =>
    obtain ⟨hc, hrest⟩ := not_or.mp (List.mem_cons.not.mp hnone)
    rw [Path.segments, if_neg (Ne.symm hc), ih hrest]

/-- A link whose target is one name asks for that name beside it. -/
theorem targetNames_of_noSlash {target : String} (hne : target ≠ "")
    (hslash : '/' ∉ target.toList) : targetNames target = [target] := by
  have hlast : target.toList.getLast? ≠ some '/' := fun h => hslash (List.mem_of_getLast? h)
  simp [targetNames, segments_of_noSlash hslash, hlast, hne]

/-- Of a link to a name that is too long it cannot be said where it leads. -/
theorem follow_of_longTarget (hproper : top.Proper) {target : String}
    (hat : top.at? (place ++ [name]) = some (.link target)) (hslash : '/' ∉ target.toList)
    (hlong : maxNameBytes < target.utf8ByteSize) (links : Nat) :
    follow top (links + 1) place [name] = .fault .nameTooLong := by
  obtain ⟨entries, _, hparent, -, -⟩ := Node.exists_parent hat
  have hother : ∀ short : String, short.utf8ByteSize ≤ maxNameBytes → target ≠ short := by
    rintro short hshort rfl
    exact absurd hlong (Nat.not_lt.mpr hshort)
  have hhead : target.toList.head? ≠ some '/' := fun h => hslash (List.mem_of_head? h)
  rw [follow, advance_of_link hproper hat]
  dsimp only
  rw [if_neg hhead, targetNames_of_noSlash (hother "" (by decide)) hslash, follow, List.append_nil,
    advance, hparent]
  simp only [if_neg (hother "." (by decide)), if_neg (hother ".." (by decide)), if_pos hlong]

theorem follow_of_at? (hproper : top.Proper) (hat : top.at? (place ++ names) = some node)
    (hlink : ∀ target, node ≠ .link target) (links : Nat) :
    follow top links place names = .found (place ++ names) links := by
  rw [follow, advance_of_at? hproper hat hlink]

/-- Where short names may lead: to no fault for their length, and only to links of the tree. -/
def Advance.Short (top : Node) : Advance → Prop
  | .arrived _ => True
  | .link _ target rest => ShortNames rest ∧ ∃ place, top.at? place = some (.link target)
  | .missing .. => True
  | .fault reason => reason ≠ .nameTooLong

theorem short_advance (top : Node) (place : List String) (hnames : ShortNames names) :
    (advance top place names).Short top := by
  induction names generalizing place with
  | nil => trivial
  | cons name rest ih =>
    obtain ⟨hname, hrest⟩ := List.forall_mem_cons.mp hnames
    rw [advance]
    split
    · rename_i entries hat
      split_ifs with hhere hup hlong
      · exact ih _ hrest
      · exact ih _ hrest
      · exact absurd hname (Nat.not_le.mpr hlong)
      · split
        · trivial
        · rename_i target hlookup
          refine ⟨hrest, place ++ [name], ?_⟩
          simp [Node.at?_append, hat, Node.at?, Node.entry?, hlookup]
        · exact ih _ hrest
    · simp [Advance.Short]

/-- Short names, in the path and in the links of the tree, never lead to a fault for length. -/
theorem follow_ne_nameTooLong (hshort : top.ShortTargets) (hnames : ShortNames names) :
    follow top links place names ≠ .fault .nameTooLong := by
  fun_induction follow top links place names with
  | case1 => simp
  | case2 => simp
  | case3 => simp
  | case4 links place names reason hadvance =>
    have hreason := short_advance top place hnames
    rw [hadvance] at hreason
    intro hfault
    exact hreason (Target.fault.inj hfault)
  | case5 => simp
  | case6 place names origin target rest hadvance links start ih =>
    have hlink := short_advance top place hnames
    rw [hadvance] at hlink
    obtain ⟨hrest, linkPlace, hat⟩ := hlink
    exact ih (List.forall_mem_append.mpr ⟨hshort.at? hat, hrest⟩)

variable {d : Disk}

theorem locate_absolute (hnamed : ∀ name ∈ names, EntryName name) :
    d.locate (Path.absolute names) = follow d.top maxLinks [] names := by
  have hnone : ¬ (Path.absolute names).parts.any (·.toList.contains (Char.ofNat 0)) = true := by
    simpa [Path.absolute] using fun name hmem => (hnamed name hmem).noNul
  rw [locate, if_neg hnone]
  rfl

end Disk

end ImportCycles
