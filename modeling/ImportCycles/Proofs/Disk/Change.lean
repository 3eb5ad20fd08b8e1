import ImportCycles.Disk.Change
import ImportCycles.Proofs.Disk.Follow

namespace ImportCycles

theorem lookup_setEntry (name other : String) (node : Node) (entries : List (String × Node)) :
    (setEntry name node entries).lookup other =
      if other = name then some node else entries.lookup other := by
  induction entries with
  | nil =>
    by_cases heq : other = name
    · simp [setEntry, heq]
    · simp [setEntry, List.lookup_cons, beq_false_of_ne heq, heq]
  | cons entry rest ih =>
    obtain ⟨key, old⟩ := entry
    simp only [setEntry]
    split
    · rename_i hkey
      subst hkey
      by_cases heq : other = key
      · simp [heq]
      · simp [List.lookup_cons, beq_false_of_ne heq, heq]
    · rename_i hkey
      by_cases heq : other = key
      · simp [heq, hkey]
      · simp [List.lookup_cons, beq_false_of_ne heq, ih]

/-- A path is made of the characters of its text. -/
theorem Path.mem_of_mem_segments {c : Char} {cs segment : List Char}
    (hsegment : segment ∈ segments cs) (hc : c ∈ segment) : c ∈ cs := by
  induction cs generalizing segment with
  | nil =>
    cases List.mem_singleton.mp hsegment
    cases hc
  | cons first rest ih =>
    rw [segments] at hsegment
    split at hsegment
    · rcases List.mem_cons.mp hsegment with rfl | hrest
      · cases hc
      · exact .tail _ (ih hrest hc)
    · split at hsegment
      · cases List.mem_singleton.mp hsegment
        cases List.mem_singleton.mp hc
        exact .head _
      · rename_i piece more hrest
        rw [hrest] at ih
        rcases List.mem_cons.mp hsegment with rfl | hmore
        · rcases List.mem_cons.mp hc with rfl | hc
          · exact .head _
          · exact .tail _ (ih (.head _) hc)
        · exact .tail _ (ih (.tail _ hmore) hc)

theorem Path.notMem_of_mem_parts {c : Char} {s part : String} (hfree : c ∉ s.toList)
    (hpart : part ∈ (ofString s).parts) : c ∉ part.toList := by
  obtain ⟨segment, hsegment, rfl⟩ := List.mem_map.mp hpart
  rw [String.toList_ofList]
  exact fun hc => hfree (mem_of_mem_segments (List.mem_of_mem_filter hsegment) hc)

namespace Node

/-- What a node is by itself, whatever lies below it. -/
def face : Node → Node
  | .dir _ => .dir []
  | node => node

/-- A place where a file can be written: a file is there, or a directory in which the name is
    free. -/
inductive Seat : Node → List String → Prop where
  | file (bytes : List UInt8) : Seat (.file bytes) []
  | free {entries : List (String × Node)} {name : String} (hfree : entries.lookup name = none) :
      Seat (.dir entries) [name]
  | inside {entries : List (String × Node)} {name : String} {child : Node} {rest : List String}
      (hlookup : entries.lookup name = some child) (hseat : Seat child rest) :
      Seat (.dir entries) (name :: rest)

variable {top : Node} {place other seat : List String} {entries : List (String × Node)}
  {name : String} {bytes : List UInt8}

theorem seat_of_file (hat : top.at? place = some (.file bytes)) : top.Seat place := by
  induction place generalizing top with
  | nil =>
    cases hat
    exact .file bytes
  | cons name rest ih =>
    obtain ⟨child, hentry, hrest⟩ := at?_cons.mp hat
    obtain ⟨entries, rfl, hlookup⟩ := entry?_eq_some.mp hentry
    exact .inside hlookup (ih hrest)

theorem seat_of_free (hat : top.at? place = some (.dir entries))
    (hfree : entries.lookup name = none) : top.Seat (place ++ [name]) := by
  induction place generalizing top with
  | nil =>
    cases hat
    exact .free hfree
  | cons first rest ih =>
    obtain ⟨child, hentry, hrest⟩ := at?_cons.mp hat
    obtain ⟨above, rfl, hlookup⟩ := entry?_eq_some.mp hentry
    exact .inside hlookup (ih hrest)

/-- What stands in the way of a file is a file. -/
theorem Seat.isFile (hseat : top.Seat place) : (top.at? place).all Node.isFile = true := by
  induction hseat with
  | file bytes => rfl
  | free hfree => simp [Node.at?, Node.entry?, hfree]
  | inside hlookup _ ih => simpa [Node.at?, Node.entry?, hlookup] using ih

theorem at?_put_self (top : Node) (place : List String) (new : Node) :
    (top.put place new).at? place = some new := by
  induction place generalizing top with
  | nil => rfl
  | cons name rest ih => simp [put, at?, Node.entry?, lookup_setEntry, ih]

/-- At every other place the tree looks as before. -/
theorem Seat.face_put (hseat : top.Seat place) (hother : other ≠ place) (bytes : List UInt8) :
    ((top.put place (.file bytes)).at? other).map face = (top.at? other).map face := by
  induction hseat generalizing other with
  | file old =>
    cases other with
    | nil => exact absurd rfl hother
    | cons name rest => rfl
  | @free entries name hfree =>
    cases other with
    | nil => rfl
    | cons first rest =>
      by_cases hfirst : first = name
      · subst hfirst
        cases rest with
        | nil => exact absurd rfl hother
        | cons next more => simp [put, at?, Node.entry?, lookup_setEntry, hfree]
      · simp [put, at?, Node.entry?, lookup_setEntry, hfirst]
  | @inside entries name child place hlookup hseat ih =>
    cases other with
    | nil => rfl
    | cons first rest =>
      by_cases hfirst : first = name
      · subst hfirst
        have hrest : rest ≠ place := fun heq => hother (heq ▸ rfl)
        simpa [put, at?, Node.entry?, lookup_setEntry, hlookup] using ih hrest
      · simp [put, at?, Node.entry?, lookup_setEntry, hfirst]

theorem at?_concat (hat : top.at? place = some (.dir entries)) (name : String) :
    top.at? (place ++ [name]) = entries.lookup name := by
  rw [at?_append, hat]
  simp only [Option.bind_some, at?, Node.entry?]
  cases entries.lookup name <;> rfl

/-- A directory stays one. Its entries look as before, but for the file that is written. -/
theorem Seat.dir_put (hseat : top.Seat seat) (hat : top.at? place = some (.dir entries))
    (bytes : List UInt8) :
    ∃ after, (top.put seat (.file bytes)).at? place = some (.dir after) ∧
      ∀ name, after.lookup name = (top.put seat (.file bytes)).at? (place ++ [name]) := by
  have hother : place ≠ seat := by
    rintro rfl
    simpa [hat, Node.isFile] using hseat.isFile
  have hface := hseat.face_put hother bytes
  rw [hat, Option.map_some, Option.map_eq_some_iff] at hface
  obtain ⟨node, hafter, hdir⟩ := hface
  cases node with
  | file old => cases hdir
  | link target => cases hdir
  | dir after => exact ⟨after, hafter, fun name => (at?_concat hafter name).symm⟩

/-- What is no directory does not become one. -/
theorem Seat.not_dir_put (hseat : top.Seat seat)
    (hnone : ∀ entries, top.at? place ≠ some (.dir entries)) (bytes : List UInt8)
    (after : List (String × Node)) :
    (top.put seat (.file bytes)).at? place ≠ some (.dir after) := by
  intro hafter
  by_cases heq : place = seat
  · subst heq
    rw [at?_put_self] at hafter
    cases hafter
  · have hface := hseat.face_put heq bytes
    rw [hafter, Option.map_some, eq_comm, Option.map_eq_some_iff] at hface
    obtain ⟨node, hbefore, hdir⟩ := hface
    cases node with
    | file old => cases hdir
    | link target => cases hdir
    | dir entries => exact hnone entries hbefore

end Node

namespace Disk

variable {top : Node} {place names rest reached seat : List String} {name : String}
  {bytes : List UInt8} {links left : Nat}

/-- Where names end at a missing entry, there is a directory that could have it. -/
theorem exists_dir_of_missing (hadvance : advance top place names = .missing reached name rest) :
    ∃ entries, top.at? reached = some (.dir entries) ∧ entries.lookup name = none := by
  induction names generalizing place with
  | nil => simp [advance] at hadvance
  | cons first more ih =>
    rw [advance] at hadvance
    split at hadvance
    · rename_i entries hat
      split_ifs at hadvance with hhere hup hlong
      · exact ih hadvance
      · exact ih hadvance
      · split at hadvance
        · rename_i hfree
          cases hadvance
          exact ⟨entries, hat, hfree⟩
        · cases hadvance
        · exact ih hadvance
    · cases hadvance

theorem exists_dir_of_absent (hfollow : follow top links place names = .absent reached name) :
    ∃ entries, top.at? reached = some (.dir entries) ∧ entries.lookup name = none := by
  fun_induction follow top links place names with
  | case1 => cases hfollow
  | case2 links place names reached' name' hadvance =>
    cases hfollow
    exact exists_dir_of_missing hadvance
  | case3 => cases hfollow
  | case4 => cases hfollow
  | case5 => cases hfollow
  | case6 place names origin target rest hadvance links start ih => exact ih hfollow

theorem advance_of_not_dir (hnone : ∀ entries, top.at? place ≠ some (.dir entries)) :
    advance top place (name :: rest) = .fault .notDirectory := by
  rw [advance]
  split
  · rename_i hat
    exact absurd hat (hnone _)
  · rfl

/-- In the tree with a new file names lead where they led before, but on from the file if it was
    missing. -/
theorem advance_put (hseat : top.Seat seat) (place names : List String) :
    advance (top.put seat (.file bytes)) place names =
      match advance top place names with
      | .arrived place => .arrived place
      | .link place target rest => .link place target rest
      | .missing place name rest =>
        if place ++ [name] = seat then advance (top.put seat (.file bytes)) seat rest
        else .missing place name rest
      | .fault reason => .fault reason := by
  induction names generalizing place with
  | nil => rfl
  | cons name rest ih =>
    by_cases hdir : ∃ entries, top.at? place = some (.dir entries)
    · obtain ⟨entries, hat⟩ := hdir
      rw [advance, advance]
      obtain ⟨after, hafter, hlookup⟩ := hseat.dir_put hat bytes
      simp only [hat, hafter]
      by_cases hhere : name = "."
      · simpa only [if_pos hhere] using ih place
      by_cases hup : name = ".."
      · simpa only [if_neg hhere, if_pos hup] using ih place.dropLast
      by_cases hlong : maxNameBytes < name.utf8ByteSize
      · simp only [if_neg hhere, if_neg hup, if_pos hlong]
      simp only [if_neg hhere, if_neg hup, if_neg hlong, hlookup]
      have hentry := Node.at?_concat hat name
      by_cases heq : place ++ [name] = seat
      · -- the name leads to the file, which is new or takes the place of another
        subst heq
        have hfile := hseat.isFile
        rw [hentry] at hfile
        rw [Node.at?_put_self]
        cases hchild : entries.lookup name with
        | none => simp
        | some child =>
          rw [hchild] at hfile
          cases child with
          | file old => exact ih _
          | dir below => simp [Node.isFile] at hfile
          | link target => simp [Node.isFile] at hfile
      · have hface := hseat.face_put heq bytes
        rw [hentry] at hface
        cases hchild : entries.lookup name with
        | none =>
          rw [hchild, Option.map_none, Option.map_eq_none_iff] at hface
          simp [hface, heq]
        | some child =>
          rw [hchild, Option.map_some, Option.map_eq_some_iff] at hface
          obtain ⟨new, hnew, hsame⟩ := hface
          rw [hnew]
          cases child <;> cases new <;> cases hsame
          · exact ih _
          · exact ih _
          · rfl
    · have hnone : ∀ entries, top.at? place ≠ some (.dir entries) := by simpa using hdir
      rw [advance_of_not_dir hnone, advance_of_not_dir (hseat.not_dir_put hnone bytes)]

/-- A path to a file, or to a name that is free, leads to the file once it is written. -/
theorem follow_put_of_found (hseat : top.Seat seat)
    (hfollow : follow top links place names = .found reached left) :
    follow (top.put seat (.file bytes)) links place names = .found reached left := by
  fun_induction follow top links place names with
  | case1 links place names arrived hadvance =>
    cases hfollow
    rw [follow, advance_put hseat, hadvance]
  | case2 => cases hfollow
  | case3 => cases hfollow
  | case4 => cases hfollow
  | case5 => cases hfollow
  | case6 place names origin target rest hadvance links start ih =>
    rw [follow, advance_put hseat, hadvance]
    exact ih hfollow

theorem follow_put_of_absent (hseat : top.Seat (reached ++ [name]))
    (hfollow : follow top links place names = .absent reached name) :
    ∃ left, follow (top.put (reached ++ [name]) (.file bytes)) links place names =
      .found (reached ++ [name]) left := by
  fun_induction follow top links place names with
  | case1 => cases hfollow
  | case2 links place names reached' name' hadvance =>
    cases hfollow
    refine ⟨links, ?_⟩
    rw [follow, advance_put hseat, hadvance]
    simp [advance]
  | case3 => cases hfollow
  | case4 => cases hfollow
  | case5 => cases hfollow
  | case6 place names origin target rest hadvance links start ih =>
    obtain ⟨left, hleft⟩ := ih hfollow
    refine ⟨left, ?_⟩
    rw [follow, advance_put hseat, hadvance]
    exact hleft

variable {d after : Disk} {p : Path}

theorem locate_put_of_found (hseat : d.top.Seat seat) (hlocate : d.locate p = .found reached left) :
    (d.put seat (.file bytes)).locate p = .found reached left := by
  unfold locate at hlocate ⊢
  split at hlocate
  · cases hlocate
  · rename_i hclean
    rw [if_neg hclean]
    exact follow_put_of_found hseat hlocate

/-- Where a path ends at a missing entry a file can be written, and the path leads to it. -/
theorem locate_put_of_absent (hlocate : d.locate p = .absent reached name) (bytes : List UInt8) :
    d.top.Seat (reached ++ [name]) ∧ ∃ left,
      (d.put (reached ++ [name]) (.file bytes)).locate p = .found (reached ++ [name]) left := by
  unfold locate at hlocate ⊢
  split at hlocate
  · cases hlocate
  · rename_i hclean
    obtain ⟨entries, hat, hfree⟩ := exists_dir_of_absent hlocate
    have hseat := Node.seat_of_free hat hfree
    rw [if_neg hclean]
    exact ⟨hseat, follow_put_of_absent hseat hlocate⟩

theorem advance_ne_embeddedNul (top : Node) (place names : List String) :
    advance top place names ≠ .fault .embeddedNul := by
  induction names generalizing place with
  | nil => simp [advance]
  | cons name rest ih =>
    rw [advance]
    split
    · split_ifs with hhere hup hlong
      · exact ih _
      · exact ih _
      · simp
      · split
        · simp
        · simp
        · exact ih _
    · simp

theorem follow_ne_embeddedNul (top : Node) (links : Nat) (place names : List String) :
    follow top links place names ≠ .fault .embeddedNul := by
  fun_induction follow top links place names with
  | case1 => simp
  | case2 => simp
  | case3 => simp
  | case4 links place names reason hadvance =>
    intro hfault
    cases hfault
    exact advance_ne_embeddedNul _ _ _ hadvance
  | case5 => simp
  | case6 place names origin target rest hadvance links start ih => exact ih

/-- A file is written at a place, and nothing else is touched. -/
structure WrittenAt (d : Disk) (place : List String) (bytes : List UInt8) (after : Disk) :
    Prop where
  workingDirectory_eq : after.workingDirectory = d.workingDirectory
  isFile : (d.top.at? place).all Node.isFile = true
  written : after.top.at? place = some (.file bytes)
  elsewhere : ∀ other, other ≠ place →
    (after.top.at? other).map Node.face = (d.top.at? other).map Node.face

theorem writtenAt_put (hseat : d.top.Seat place) (bytes : List UInt8) :
    d.WrittenAt place bytes (d.put place (.file bytes)) where
  workingDirectory_eq := rfl
  isFile := hseat.isFile
  written := Node.at?_put_self _ _ _
  elsewhere _ hother := hseat.face_put hother bytes

theorem find_of_locate (hlocate : after.locate p = .found place left)
    (hat : after.top.at? place = some (.file bytes)) : after.find p = .ok (place, .file bytes) := by
  simp [find, hlocate, hat]

/-- A write through a path puts the file where the path leads from then on, and touches nothing
    else. -/
theorem writtenAt_of_write (hwrite : d.write p bytes = .ok after) :
    ∃ place, after.find p = .ok (place, .file bytes) ∧ d.WrittenAt place bytes after := by
  unfold write at hwrite
  split at hwrite
  · rename_i place left hlocate
    split at hwrite
    · rename_i old hat
      cases hwrite
      have hseat := Node.seat_of_file hat
      have hwritten := writtenAt_put hseat bytes
      exact ⟨place, find_of_locate (locate_put_of_found hseat hlocate) hwritten.written, hwritten⟩
    · cases hwrite
  · rename_i place name hlocate
    cases hwrite
    obtain ⟨hseat, left, hleft⟩ := locate_put_of_absent hlocate bytes
    have hwritten := writtenAt_put hseat bytes
    exact ⟨place ++ [name], find_of_locate hleft hwritten.written, hwritten⟩
  · cases hwrite

end Disk

end ImportCycles
