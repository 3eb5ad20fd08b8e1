import ImportCycles.Proofs.Graph.Cycle
import ImportCycles.Proofs.Walk.Move

open Relation (TransGen ReflTransGen)

namespace ImportCycles

namespace Walk

/-- A frame holds names below `unit`, and every name below `unit` that it no longer holds is
    done with. -/
structure Covered (edges : Table) (done : String → Prop) (unit : String) (frame : List String) :
    Prop where
  below : ∀ name ∈ frame, edges.Edge unit name
  others : ∀ name, edges.Edge unit name → name ∈ frame ∨ done name

/-- The frames belong to the units of the path, newest first, and the last frame to the start.
    A unit may count the units above it on the path as done with: they are finished before the
    walk looks at its frame again. -/
inductive Aligned (edges : Table) (origin : String) :
    (String → Prop) → List String → List (List String) → Prop where
  | start {done : String → Prop} {frame : List String}
      (hcovered : Covered edges done origin frame) : Aligned edges origin done [] [frame]
  | above {done : String → Prop} {unit : String} {path frame : List String}
      {frames : List (List String)} (hcovered : Covered edges done unit frame)
      (hedge : edges.Edge (path.headD origin) unit)
      (hrest : Aligned edges origin (fun name => done name ∨ name = unit) path frames) :
      Aligned edges origin done (unit :: path) (frame :: frames)

/-- The finished units, newest first: each leads only to known units and to units finished before
    it. Among unknown units this is a topological order. -/
def Settled (edges : Table) (known : List String) : List String → Prop
  | [] => True
  | unit :: older =>
    (∀ name, edges.Edge unit name → name ∈ known ∨ name ∈ older) ∧ Settled edges known older

/-- An edge that a walk may take: it does not lead to a known unit. -/
def OpenEdge (edges : Table) (known : List String) (a b : String) : Prop :=
  edges.Edge a b ∧ b ∉ known

/-- A unit that the walk will not enter again. -/
def Done (s : State) (name : String) : Prop :=
  name ∈ s.known ∨ name ∈ s.finished

/-- What every step of a pruned walk preserves. -/
structure Invariant (edges : Table) (origin : String) (s : State) : Prop where
  seen_eq : s.seen = s.path
  enteredOnce : (s.path ++ s.finished).Nodup
  settled : Settled edges s.known s.finished
  aligned : s.frames ≠ [] → Aligned edges origin (Done s) s.path s.frames
  ended : s.frames = [] → s.path = [] ∧ Covered edges (Done s) origin []

variable {edges : Table} {origin : String} {done wider : String → Prop}

theorem Covered.mono {unit : String} {frame : List String}
    (hcovered : Covered edges done unit frame) (hsub : ∀ name, done name → wider name) :
    Covered edges wider unit frame :=
  ⟨hcovered.below, fun name hedge => (hcovered.others name hedge).imp_right (hsub name)⟩

/-- A name leaves a frame once it is done with. -/
theorem Covered.drop {unit name : String} {rest : List String}
    (hcovered : Covered edges done unit (name :: rest)) (hsub : ∀ name, done name → wider name)
    (hname : wider name) : Covered edges wider unit rest := by
  refine ⟨fun other hother => hcovered.below other (by simp [hother]), fun other hedge => ?_⟩
  rcases hcovered.others other hedge with hmem | hdone
  · rcases List.mem_cons.mp hmem with rfl | hmem
    · exact .inr hname
    · exact .inl hmem
  · exact .inr (hsub other hdone)

theorem covered_frameOf (edges : Table) (done : String → Prop) (unit : String) :
    Covered edges done unit (frameOf edges unit) :=
  ⟨fun _ => mem_frameOf.mp, fun _ hedge => .inl (mem_frameOf.mpr hedge)⟩

theorem Aligned.mono {path : List String} {frames : List (List String)}
    (haligned : Aligned edges origin done path frames) (hsub : ∀ name, done name → wider name) :
    Aligned edges origin wider path frames := by
  induction haligned generalizing wider with
  | start hcovered => exact .start (hcovered.mono hsub)
  | above hcovered hedge _ ih =>
    exact .above (hcovered.mono hsub) hedge (ih fun name => Or.imp_left (hsub name))

theorem Aligned.drop {path rest : List String} {name : String} {outer : List (List String)}
    (haligned : Aligned edges origin done path ((name :: rest) :: outer))
    (hsub : ∀ name, done name → wider name) (hname : wider name) :
    Aligned edges origin wider path (rest :: outer) := by
  cases haligned with
  | start hcovered => exact .start (hcovered.drop hsub hname)
  | above hcovered hedge hrest =>
    exact .above (hcovered.drop hsub hname) hedge
      (hrest.mono fun name => Or.imp_left (hsub name))

theorem Aligned.edge_next {path rest : List String} {name : String} {outer : List (List String)}
    (haligned : Aligned edges origin done path ((name :: rest) :: outer)) :
    edges.Edge (path.headD origin) name := by
  cases haligned with
  | start hcovered => exact hcovered.below name (by simp)
  | above hcovered => exact hcovered.below name (by simp)

/-- Consecutive units of the path are joined by edges, which run towards the newest unit. Below the
    oldest stands the start. -/
theorem Aligned.isChain_concat {path : List String} {frames : List (List String)}
    (haligned : Aligned edges origin done path frames) :
    (path ++ [origin]).IsChain fun a b => edges.Edge b a := by
  induction haligned with
  | start => exact .singleton _
  | @above _ unit path _ _ _ hedge _ ih =>
    cases path with
    | nil => exact List.isChain_pair.mpr hedge
    | cons older rest => exact List.isChain_cons_cons.mpr ⟨hedge, ih⟩

theorem Aligned.isChain {path : List String} {frames : List (List String)}
    (haligned : Aligned edges origin done path frames) :
    path.IsChain fun a b => edges.Edge b a :=
  haligned.isChain_concat.prefix (List.prefix_append path [origin])

/-- There is one frame for each unit of the path, and one for the start. -/
theorem Aligned.length_frames {path : List String} {frames : List (List String)}
    (haligned : Aligned edges origin done path frames) : frames.length = path.length + 1 := by
  induction haligned with
  | start => rfl
  | above _ _ _ ih => rw [List.length_cons, List.length_cons, ih]

theorem Settled.mono {known wider finished : List String} (hsettled : Settled edges known finished)
    (hsub : ∀ name ∈ known, name ∈ wider) : Settled edges wider finished := by
  induction finished with
  | nil => trivial
  | cons unit older ih =>
    exact ⟨fun name hedge => (hsettled.1 name hedge).imp_left (hsub name), ih hsettled.2⟩

@[simp] theorem openEdge_nil (edges : Table) : OpenEdge edges [] = edges.Edge := by
  funext a b
  simp [OpenEdge]

theorem OpenEdge.mono {known fewer : List String} {a b : String} (hopen : OpenEdge edges known a b)
    (hsub : ∀ name ∈ fewer, name ∈ known) : OpenEdge edges fewer a b :=
  ⟨hopen.1, fun hmem => hopen.2 (hsub b hmem)⟩

/-- A finished unit leads only to known units and to other finished units. -/
theorem Settled.edge {known finished : List String} (hsettled : Settled edges known finished)
    {a b : String} (ha : a ∈ finished) (hopen : OpenEdge edges known a b) : b ∈ finished := by
  induction finished with
  | nil => cases ha
  | cons unit older ih =>
    refine List.mem_cons.mpr (.inr ?_)
    rcases List.mem_cons.mp ha with rfl | ha
    · exact (hsettled.1 b hopen.1).resolve_left hopen.2
    · exact ih hsettled.2 ha

/-- Unknown units within reach of a finished unit are finished as well. -/
theorem Settled.closed {known finished : List String} (hsettled : Settled edges known finished)
    {a b : String} (ha : a ∈ finished) (hpath : ReflTransGen (OpenEdge edges known) a b) :
    b ∈ finished := by
  induction hpath with
  | refl => exact ha
  | tail _ hopen ih => exact hsettled.edge ih hopen

/-- No cycle of unknown units runs through a finished unit. -/
theorem Settled.no_loop {known finished : List String} (hsettled : Settled edges known finished)
    (hnodup : finished.Nodup) {unit : String} (hunit : unit ∈ finished) :
    ¬ TransGen (OpenEdge edges known) unit unit := by
  induction finished with
  | nil => cases hunit
  | cons newest older ih =>
    obtain ⟨hnotin, hnodup⟩ := List.nodup_cons.mp hnodup
    intro hloop
    rcases List.mem_cons.mp hunit with rfl | hunit
    · obtain ⟨next, ⟨hedge, hunknown⟩, hback⟩ := TransGen.head'_iff.mp hloop
      have hnext : next ∈ older := (hsettled.1 next hedge).resolve_left hunknown
      exact hnotin (hsettled.2.closed hnext hback)
    · exact ih hsettled.2 hnodup hunit hloop

theorem invariant_start (edges : Table) (known : List String) (origin : String) :
    Invariant edges origin (start edges known origin) where
  seen_eq := rfl
  enteredOnce := .nil
  settled := trivial
  aligned _ := .start (covered_frameOf edges _ origin)
  ended h := by simp [start] at h

/-- Units may become known behind the walk's back. -/
theorem Invariant.learn {s : State} (hinv : Invariant edges origin s) {known : List String}
    (hsub : ∀ name ∈ s.known, name ∈ known) (cycles : List (List String)) :
    Invariant edges origin { s with known, cycles } where
  seen_eq := hinv.seen_eq
  enteredOnce := hinv.enteredOnce
  settled := hinv.settled.mono hsub
  aligned hframes := (hinv.aligned hframes).mono fun name => Or.imp_left (hsub name)
  ended hframes :=
    ⟨(hinv.ended hframes).1, (hinv.ended hframes).2.mono fun name => Or.imp_left (hsub name)⟩

theorem Invariant.aligned_cons {s : State} (hinv : Invariant edges origin s) {frame : List String}
    {outer : List (List String)} (hframes : s.frames = frame :: outer) :
    Aligned edges origin (Done s) s.path (frame :: outer) := by
  have haligned := hinv.aligned (by simp [hframes])
  rwa [hframes] at haligned

theorem Invariant.move {s next : State} (hinv : Invariant edges origin s)
    (hmove : Move true edges s next) : Invariant edges origin next := by
  have hseen := hinv.seen_eq
  have honce := hinv.enteredOnce
  have hsettled := hinv.settled
  cases hmove with
  | leaveStart hpath hframes =>
    have haligned := hinv.aligned_cons hframes
    rw [hpath] at haligned
    cases haligned with
    | start hcovered =>
      exact ⟨hseen, honce, hsettled, fun hne => absurd rfl hne, fun _ => ⟨hpath, hcovered⟩⟩
  | @retreat unit path outer hpath hframes =>
    have haligned := hinv.aligned_cons hframes
    rw [hpath] at haligned honce
    cases haligned with
    | above hcovered _ hrest =>
      have hnames : ∀ name, edges.Edge unit name → name ∈ s.known ∨ name ∈ s.finished :=
        fun name hedge => (hcovered.others name hedge).resolve_left (by simp)
      -- the frames below have counted the unit as done with ever since it was entered
      have hdone : Aligned edges origin
          (fun name => name ∈ s.known ∨ name ∈ unit :: s.finished) path outer := by
        refine hrest.mono fun name hname => ?_
        rcases hname with (hknown | hfinished) | rfl
        · exact .inl hknown
        · exact .inr (.tail _ hfinished)
        · exact .inr (by simp)
      refine ⟨?_, List.nodup_middle.mpr honce, ⟨hnames, hsettled⟩, fun _ => hdone, ?_⟩
      · simp [hseen, hpath]
      · rintro rfl
        cases hdone
  | @pass unit rest outer hframes hold =>
    have haligned := hinv.aligned_cons hframes
    have hdone : Done s unit := hold.imp_right fun hpruned => hpruned.2.2
    refine ⟨hseen, honce, hsettled, fun _ => ?_, fun hnil => absurd hnil (by simp)⟩
    exact haligned.drop (fun _ => id) hdone
  | @close unit rest outer hframes _ _ =>
    have haligned := hinv.aligned_cons hframes
    have hgrow : ∀ name ∈ s.known, name ∈ unit :: s.known := fun _ => .tail _
    refine ⟨hseen, honce, hsettled.mono hgrow, fun _ => ?_, fun hnil => absurd hnil (by simp)⟩
    exact haligned.drop (fun name => Or.imp_left (hgrow name)) (.inl (by simp))
  | @enter unit rest outer hframes _ hunseen hnew =>
    have haligned := hinv.aligned_cons hframes
    have hfresh : unit ∉ s.path ++ s.finished := by
      simpa [hseen] using And.intro hunseen (hnew rfl)
    have hbelow : Aligned edges origin (fun name => Done s name ∨ name = unit) s.path
        (rest :: outer) := haligned.drop (fun _ => .inl) (.inr rfl)
    refine ⟨by simp [hseen], List.nodup_cons.mpr ⟨hfresh, honce⟩, hsettled, fun _ => ?_,
      fun hnil => absurd hnil (by simp)⟩
    exact .above (covered_frameOf edges _ unit) haligned.edge_next hbelow

/-- An edge from the newest unit back to the path closes a simple cycle. -/
theorem Invariant.closing_simpleCycle {s : State} (hinv : Invariant edges origin s) {unit : String}
    {rest : List String} {outer : List (List String)} (hframes : s.frames = (unit :: rest) :: outer)
    (hseen : unit ∈ s.seen) : SimpleCycle edges (closing unit s.path) := by
  have haligned := hinv.aligned_cons hframes
  have hunit : unit ∈ s.path := hinv.seen_eq ▸ hseen
  obtain ⟨newest, older, hpath⟩ := List.exists_cons_of_ne_nil (List.ne_nil_of_mem hunit)
  have hedge : edges.Edge newest unit := by simpa [hpath] using haligned.edge_next
  have hnodup : s.path.Nodup := (List.nodup_append.mp hinv.enteredOnce).1
  exact Walk.closing_simpleCycle haligned.isChain hnodup (by simp [hpath]) hedge hunit

/-- A step reports nothing, or one simple cycle, whose first unit becomes known with it. -/
theorem Invariant.report {s next : State} (hinv : Invariant edges origin s)
    (hmove : Move true edges s next) :
    (next.known = s.known ∧ next.cycles = s.cycles) ∨
      ∃ unit cycle, next.known = unit :: s.known ∧ next.cycles = s.cycles ++ [cycle] ∧
        cycle.head? = some unit ∧ SimpleCycle edges cycle := by
  cases hmove with
  | leaveStart => exact .inl ⟨rfl, rfl⟩
  | retreat => exact .inl ⟨rfl, rfl⟩
  | pass => exact .inl ⟨rfl, rfl⟩
  | enter => exact .inl ⟨rfl, rfl⟩
  | @close unit rest outer hframes _ hseen =>
    exact .inr ⟨unit, closing unit s.path, rfl, rfl, rfl, hinv.closing_simpleCycle hframes hseen⟩

end Walk

end ImportCycles
