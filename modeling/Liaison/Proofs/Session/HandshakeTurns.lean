import Liaison.Proofs.Session.WriteInvariant
import Liaison.Proofs.Session.Handshake

/-!
# Handshakes beside one another

Nothing keeps two handshakes from finding the session starting, one beside the other. But if each begins only when
those before it have returned, the server is asked once and told once, and no handshake takes from another what it
has achieved or can still achieve.
-/

namespace Liaison

/-! ## One by one -/

/-- If a handshake finds the session starting now, those that have found it so before have returned. -/
def Course.IsAlone (x : Course) (tasks : List TaskId) : Occurrence → Prop
  | .step t => t ∈ tasks → (x.machine.deed? t).bind Deed.begins? = some t →
      ∀ u ∈ tasks, u ∈ begun x.history → (x.machine.results.get? u).isSome = true
  | _ => True

def Course.TakesTurns (x : Course) (tasks : List TaskId) : List Occurrence → Prop
  | [] => True
  | e :: rest => x.IsAlone tasks e ∧ (x.happen e).TakesTurns (tasks ++ x.newcomers e) rest

instance (x : Course) (tasks : List TaskId) (e : Occurrence) : Decidable (x.IsAlone tasks e) :=
  match e with
  | .step t => inferInstanceAs (Decidable (t ∈ tasks → (x.machine.deed? t).bind Deed.begins? = some t →
      ∀ u ∈ tasks, u ∈ begun x.history → (x.machine.results.get? u).isSome = true))
  | .start _ | .drop _ | .receive _ | .hangUp | .limitOutput _ _ | .elapseTo _ | .endChild _ | .hear _ | .endErrors _
  | .setFiles _ | .addHandler _ _ => isTrue trivial

def Course.decideTakesTurns (x : Course) (tasks : List TaskId) :
    (occurrences : List Occurrence) → Decidable (x.TakesTurns tasks occurrences)
  | [] => isTrue trivial
  | e :: rest =>
    have := (x.happen e).decideTakesTurns (tasks ++ x.newcomers e) rest
    inferInstanceAs (Decidable (x.IsAlone tasks e ∧ (x.happen e).TakesTurns (tasks ++ x.newcomers e) rest))

instance (x : Course) (tasks : List TaskId) (occurrences : List Occurrence) :
    Decidable (x.TakesTurns tasks occurrences) :=
  x.decideTakesTurns tasks occurrences

theorem takesTurns_concat (x : Course) (tasks : List TaskId) (occurrences : List Occurrence) (e : Occurrence) :
    x.TakesTurns tasks (occurrences ++ [e]) ↔
      x.TakesTurns tasks occurrences ∧ (x.run occurrences).IsAlone (tasks ++ x.handshakes occurrences) e := by
  induction occurrences generalizing x tasks with
  | nil => simp [Course.TakesTurns, Course.handshakes, Course.run]
  | cons f rest ih =>
    rw [List.cons_append, Course.TakesTurns, ih, Course.TakesTurns, Course.handshakes, and_assoc, List.append_assoc]
    rfl

/-- Of all handshakes only one has come further than to find the session starting, unless it has returned. -/
structure Foremost (m : Machine) (places : TaskId → Handshaking) (u : TaskId) : Prop where
  others : ∀ v, v ≠ u → (places v).rank ≤ 1 ∧ ((places v).rank = 1 → m.results.get? v ≠ none)
  late : places u = .late → m.state.IsOver

namespace Foremost

variable {tasks : List TaskId} {x : Course} {places : TaskId → Handshaking} {m m' : Machine} {t u : TaskId} {a : Action}
  {answer : a.Answer} {place : Handshaking}

/-- A handshake that was not the fastest finds that the session is over, for no other has made it ready. -/
theorem isOver_of_late (h : HandshakeInvariant tasks x places) (hl : Foremost x.machine places u)
    (hturn : Handshaking.Turn (places u) a answer .late) (hp : x.machine.perform u a = some (answer, m)) :
    m.state.IsOver := by
  generalize hplace : places u = place at hturn
  cases hturn with
  | work h => rcases h with h | h | h <;> cases h
  | fail =>
    rcases transition_perform hp with ⟨hm, -⟩ | ⟨-, hb, hn⟩
    · cases hm
    · rw [hn]
      rcases h.ready with hstart | hover | ⟨v, hv⟩
      · exact .inr (hb hstart)
      · exact hover
      · have hne : v ≠ u := by
          rintro rfl
          rw [hplace] at hv
          cases hv
        have hrank := (hl.others v hne).1
        rw [hv] at hrank
        simp [Handshaking.rank] at hrank

/-- A handshake that has returned while the session is starting has not gone far. -/
theorem rank_of_returned (h : HandshakeInvariant tasks x places) (hs : x.machine.state = .starting) {result : Result}
    (hr : x.machine.results.get? u = some result) : (places u).rank ≤ 1 := by
  have hfits := (h.returned u result hr).2
  have hholds := h.holds u
  generalize places u = place at hfits hholds
  cases place with
  | asked => cases hfits
  | told => cases hfits
  | leaving => cases hfits
  | left => exact absurd hs hholds.ne_starting
  | shaken => exact absurd hs hholds
  | late => exact absurd hs hholds
  | _ => simp [Handshaking.rank]

theorem act (h : HandshakeInvariant tasks x places) (hl : Foremost x.machine places u) {r : Routine Next}
    (ht : x.machine.tasks.get? t = some r) (hturn : Handshaking.Turn (places t) a answer place)
    (hp : x.machine.perform t a = some (answer, m))
    (halone : t ∈ tasks → Deed.begins? ⟨t, a, answer⟩ = some t →
      ∀ u ∈ tasks, u ∈ begun x.history → (x.machine.results.get? u).isSome = true)
    (hs : m'.state = m.state) (hr : m'.results = m.results) :
    ∃ v, Foremost m' (Function.update places t place) v := by
  have hresults : m'.results = x.machine.results := hr.trans (streams_perform hp).results
  by_cases e : t = u
  · subst e
    refine ⟨t, ?_, ?_⟩
    · intro v hv
      rw [Function.update_of_ne hv, hresults]
      exact hl.others v hv
    · rw [Function.update_self, hs]
      rintro rfl
      exact hl.isOver_of_late h hturn hp
  · -- Another one than the foremost has returned if it ever began, and so it has not begun.
    have hzero : (places t).rank = 0 := by
      obtain ⟨hle, hone⟩ := hl.others t e
      by_contra hne
      obtain ⟨result, hresult⟩ := Option.ne_none_iff_exists'.mp (hone (by omega))
      rw [(h.returned t result hresult).1] at ht
      cases ht
    by_cases hpos : 1 ≤ place.rank
    · -- It begins now, when all others have returned. So from now on it is the foremost itself.
      obtain ⟨hfresh, rfl, hbegins⟩ := hturn.begins_of_rank (t := t) hzero hpos
      have hmem : t ∈ tasks := (h.members t).mp (by simp [hfresh])
      have hstart : x.machine.state = .starting := state_of_begins hp hbegins
      refine ⟨t, ?_, ?_⟩
      · intro v hv
        rw [Function.update_of_ne hv, hresults]
        by_cases e' : v = u
        · subst e'
          by_cases hv0 : (places v).rank = 0
          · simp [hv0]
          · have hin : v ∈ tasks := by
              apply (h.members v).mp
              intro he
              exact hv0 (by simp [he, Handshaking.rank])
            have hsome := halone hmem hbegins v hin (h.begun v (Nat.pos_of_ne_zero hv0))
            obtain ⟨result, hresult⟩ := Option.isSome_iff_exists.mp hsome
            exact ⟨rank_of_returned h hstart hresult, fun _ => by simp [hresult]⟩
        · exact hl.others v e'
      · rw [Function.update_self]
        exact Handshaking.noConfusion
    · refine ⟨u, ?_, ?_⟩
      · intro v hv
        by_cases e' : v = t
        · rw [e', Function.update_self]
          exact ⟨by omega, by omega⟩
        · rw [Function.update_of_ne e', hresults]
          exact hl.others v hv
      · rw [Function.update_of_ne (Ne.symm e), hs]
        intro hlate
        exact (hturn.goesOn hp).isOver (hl.late hlate)

theorem still (hl : Foremost m places u) (hs : m'.state = m.state)
    (hr : ∀ v, m.results.get? v ≠ none → m'.results.get? v ≠ none) : Foremost m' places u := by
  refine ⟨?_, ?_⟩
  · intro v hv
    exact ⟨(hl.others v hv).1, fun hone => hr v ((hl.others v hv).2 hone)⟩
  · rw [hs]
    exact hl.late

theorem move (h : HandshakeInvariant tasks x places) (hl : Foremost x.machine places u) {e : Occurrence} {x' : Course}
    {places' : TaskId → Handshaking} (hmove : Handshaking.placement.Move x places e x' places')
    (halone : x.IsAlone tasks e) :
    ∃ v, Foremost x'.machine places' v := by
  have hstep : ∀ {t : TaskId} {a : Action} {answer : a.Answer} {m : Machine} {next : a.Answer → Routine Next},
      e = .step t → x.machine.tasks.get? t = some (.step a next) → x.machine.perform t a = some (answer, m) →
      t ∈ tasks → Deed.begins? ⟨t, a, answer⟩ = some t →
      ∀ u ∈ tasks, u ∈ begun x.history → (x.machine.results.get? u).isSome = true := by
    rintro t a answer m next rfl ht hp hmem hbegins
    apply halone hmem
    rw [Machine.deed?, ht]
    simp only [hp, Option.map_some, Option.bind_some]
    exact hbegins
  cases hmove with
  | @act t a answer m next ht ha hp htasks hnext =>
    exact hl.act h ht (Handshaking.turn_after ha (h.ne_unbound t) answer) hp (hstep rfl ht hp) rfl rfl
  | @spawn t phase next ht ha =>
    rw [h.taskGroup.update_spawn Handshaking.confines ha]
    exact hl.act h ht (Handshaking.turn_after ha (h.ne_unbound t) ()) rfl (hstep rfl ht rfl) rfl rfl
  | @finish t result ht hf =>
    refine ⟨u, hl.still rfl ?_⟩
    intro v hv
    rw [Table.get?_insert]
    split
    · simp
    · exact hv
  | @resume t phase ht hf =>
    rw [h.taskGroup.update_resume Handshaking.confines hf]
    exact ⟨u, hl.still rfl fun _ hv => hv⟩
  | wait hw => exact ⟨u, hl⟩
  | @start op ha =>
    have hrank : (Handshaking.placement.operation op).rank = 0 := by cases op <;> rfl
    refine ⟨u, ?_, ?_⟩
    · intro v hv
      by_cases e' : v = x.machine.nextTask
      · rw [e', Function.update_self]
        exact ⟨by omega, by omega⟩
      · rw [Function.update_of_ne e']
        exact hl.others v hv
    · by_cases e' : u = x.machine.nextTask
      · rw [e', Function.update_self]
        intro hlate
        rw [hlate] at hrank
        cases hrank
      · rw [Function.update_of_ne e']
        exact hl.late
  | @drop t r ht =>
    rw [Machine.drop, ht]
    exact ⟨u, hl.still rfl fun _ hv => hv⟩
  | miss ht => exact ⟨u, hl⟩
  | world he =>
    obtain ⟨m, hm, hsame⟩ := happen_of_isWorldly he x
    rw [hm]
    exact ⟨u, hl.still hsame.state fun _ hv => hsame.results ▸ hv⟩

end Foremost

/-! ## Whole runs -/

theorem foremost_begin (o : ClientOptions) (m : Machine) (u : TaskId) :
    Foremost m (Handshaking.placement.first o) u := by
  refine ⟨?_, ?_⟩
  · intro v _
    rw [first_eq_elsewhere]
    exact ⟨Nat.zero_le 1, fun h => by cases h⟩
  · rw [first_eq_elsewhere]
    exact Handshaking.noConfusion

/-- The server was asked and told once at most, no handshake was told that the session is closed before it was, and
none ended it when another had made it ready or could still do so. -/
structure Course.HandshakesOnce (x : Course) (tasks : List TaskId) : Prop where
  asked : (x.machine.outlet.frames.filter (Json.hasMethod "initialize")).length ≤ 1
  told : (x.machine.outlet.frames.filter (Json.hasMethod "initialized")).length ≤ 1
  closed : ∀ t ∈ tasks, ∀ reason, x.machine.results.get? t = some (.error (.sessionClosed reason)) →
    x.machine.state.IsOver
  ended : ∀ t ∈ tasks, t ∈ enders x.history → ∀ u ∈ tasks, u ≠ t →
    u ∉ readied x.history ∧ (u ∈ begun x.history → (x.machine.results.get? u).isSome = true)

namespace Foremost

variable {tasks : List TaskId} {x : Course} {places : TaskId → Handshaking} {u : TaskId}

theorem eq_of_rank {m : Machine} (hl : Foremost m places u) {t : TaskId} (ht : 2 ≤ (places t).rank) : t = u := by
  by_contra hne
  have hle := (hl.others t hne).1
  omega

/-- A message that is handed in only by those who have asked is written once at most. -/
theorem length_written_le (hl : Foremost x.machine places u) (hw : x.machine.outlet.frames <+: handedIn x.history)
    {method : String} (hn : (senders method x.history).Nodup)
    (hd : ∀ d ∈ x.history, d.sends? method ≠ none → 2 ≤ (places d.task).rank) :
    (x.machine.outlet.frames.filter (Json.hasMethod method)).length ≤ 1 := by
  have hforemost : ∀ t ∈ senders method x.history, t = u := by
    intro t ht
    obtain ⟨d, hmem, hs⟩ := List.mem_filterMap.mp ht
    apply hl.eq_of_rank
    rw [task_of_sends? hs]
    exact hd d hmem (by simp [hs])
  exact length_filter_le_one hw hn fun t ht v hv => (hforemost t ht).trans (hforemost v hv).symm

theorem isOver_of_closed (h : HandshakeInvariant tasks x places) (hl : Foremost x.machine places u) {t : TaskId}
    (ht : t ∈ tasks) {reason : String} (hr : x.machine.results.get? t = some (.error (.sessionClosed reason))) :
    x.machine.state.IsOver := by
  have hfits := (h.returned t _ hr).2
  have hholds := h.holds t
  have hmem := (h.members t).mpr ht
  have hlate : places t = .late → x.machine.state.IsOver := by
    intro he
    have htu := hl.eq_of_rank (t := t) (by simp [he, Handshaking.rank])
    exact hl.late (htu ▸ he)
  generalize places t = place at hfits hholds hmem hlate
  cases place with
  | found => exact absurd rfl (hfits reason)
  | shaken => exact absurd rfl (hfits reason)
  | away seen => exact hholds (hfits reason rfl)
  | left => exact hholds
  | late => exact hlate rfl
  | elsewhere => exact absurd rfl hmem
  | unbound => exact hholds.elim
  | _ => cases hfits

/-- A handshake that has ended the session is the foremost, and so it took nothing from another one. -/
theorem alone_of_ended (h : HandshakeInvariant tasks x places) (hl : Foremost x.machine places u) {t v : TaskId}
    (ht : t ∈ tasks) (hend : t ∈ enders x.history) (hv : v ∈ tasks) (hne : v ≠ t) :
    v ∉ readied x.history ∧ (v ∈ begun x.history → (x.machine.results.get? v).isSome = true) := by
  obtain ⟨d, hd, he⟩ := List.mem_filterMap.mp hend
  have hdt : d.task = t := by
    rw [Deed.ends?] at he
    split at he <;> cases he
    rfl
  have hplace := (h.marks d hd).ends (hdt ▸ (h.members t).mpr ht) (by simp [he])
  rw [hdt] at hplace
  have htu : t = u := hl.eq_of_rank (by rcases hplace with h | h <;> simp [h, Handshaking.rank])
  obtain ⟨hle, hreturned⟩ := hl.others v (htu ▸ hne)
  constructor
  · intro hready
    obtain ⟨d', hd', he'⟩ := List.mem_filterMap.mp hready
    have hinvariant := (h.marks d' hd').readies (by simp [he'])
    rw [task_of_readies? he', hinvariant] at hle
    simp [Handshaking.rank] at hle
  · intro hbegun
    obtain ⟨d', hd', he'⟩ := List.mem_filterMap.mp hbegun
    have hdv := task_of_begins? he'
    have hrank := (h.marks d' hd').begins (hdv ▸ (h.members v).mpr hv) (by simp [he'])
    rw [← hdv] at hrank
    exact Option.isSome_iff_ne_none.mpr (hreturned (by omega))

theorem handshakesOnce (h : HandshakeInvariant tasks x places) (hl : Foremost x.machine places u)
    (hw : x.machine.outlet.frames <+: handedIn x.history) : x.HandshakesOnce tasks where
  asked := hl.length_written_le hw h.asked fun d hd => (h.marks d hd).asks
  told := hl.length_written_le hw h.told fun d hd hs => Nat.le_of_succ_le ((h.marks d hd).tells hs)
  closed _ ht _ hr := hl.isOver_of_closed h ht hr
  ended _ ht hend _ hv hne := hl.alone_of_ended h ht hend hv hne

end Foremost

/-- Whatever happens beside them: if no handshake begins before those before it have returned, one of them at most
asks the server and tells it, and none takes from another what it has achieved or can still achieve. -/
theorem handshakes_in_turn_initialize_once (o : ClientOptions) (files : FileTree) (hasProcess : Bool)
    (occurrences : List Occurrence) (hplain : ∀ op, .start op ∈ occurrences → op.IsPlain)
    (hturns : (Course.begin o files hasProcess).TakesTurns [] occurrences) :
    ((Course.begin o files hasProcess).run occurrences).HandshakesOnce
      ((Course.begin o files hasProcess).handshakes occurrences) := by
  let x := Course.begin o files hasProcess
  have hbegin : HandshakeInvariant [] x (Handshaking.placement.first o) ∧
      (x.TakesTurns [] [] → ∃ u, Foremost x.machine (Handshaking.placement.first o) u) :=
    ⟨handshakeInvariant_begin o files hasProcess, fun _ => ⟨0, foremost_begin o _ 0⟩⟩
  -- That somebody is the foremost is kept only as long as the handshakes take turns, so it is carried along under
  -- that condition, beside what holds anyway.
  obtain ⟨places, -, h, hl⟩ := Placement.run
    (I := fun occurrences y places => HandshakeInvariant (x.handshakes occurrences) y places ∧
      (x.TakesTurns [] occurrences → ∃ u, Foremost y.machine places u))
    (keepsRules_begin Handshaking.placement o files hasProcess) hbegin (by
      rintro occurrences e places places' hc ⟨h, hl⟩ hmove
      refine ⟨?_, ?_⟩
      · rw [handshakes_concat]
        exact h.move hc hmove
      · intro ht
        obtain ⟨ht, halone⟩ := (takesTurns_concat x [] occurrences e).mp ht
        obtain ⟨u, hl⟩ := hl ht
        exact hl.move h hmove halone) occurrences hplain
  obtain ⟨u, hl⟩ := hl hturns
  exact hl.handshakesOnce h (frames_prefix_run o files hasProcess occurrences)

/-- A handshake is carried out, and then another one is asked for. -/
def handshakesTwice : List Occurrence :=
  [.start .handshake] ++ List.replicate 5 (.step 3) ++ List.replicate 4 (.step 0) ++ [.step 3] ++
    [.receive (Frame.write (.obj [("id", .int 1), ("result", .null)]))] ++ List.replicate 3 (.step 1) ++
    List.replicate 4 (.step 3) ++ List.replicate 4 (.step 0) ++ List.replicate 3 (.step 3) ++
    [.start .handshake] ++ List.replicate 2 (.step 4)

theorem isPlain_handshakesTwice (op : Operation) (h : .start op ∈ handshakesTwice) : op.IsPlain := by
  have hop : op = .handshake := by simpa [handshakesTwice] using h
  exact fun hne => absurd hop hne

theorem handshakes_in_turn_initialize_once_twoTurns :
    let x := Course.begin ⟨"rust", "rust", [0x2F, 0x77], none, 1, 1, .null⟩ ⟨[], []⟩ false
    (∀ op, .start op ∈ handshakesTwice → op.IsPlain) ∧ x.TakesTurns [] handshakesTwice ∧
      (x.run handshakesTwice).machine.state = .ready ∧
      (x.run handshakesTwice).HandshakesOnce (x.handshakes handshakesTwice) := by
  refine ⟨isPlain_handshakesTwice, by decide +kernel, by decide +kernel, ?_⟩
  exact handshakes_in_turn_initialize_once _ _ false handshakesTwice isPlain_handshakesTwice (by decide +kernel)

/-- Two handshakes begin beside one another, and both ask. -/
example :
    let x := Course.begin ⟨"rust", "rust", [0x2F, 0x77], none, 1, 1, .null⟩ ⟨[], []⟩ false
    let beside := List.replicate 2 (.start .handshake) ++ List.replicate 5 (.step 3) ++ List.replicate 5 (.step 4) ++
      List.replicate 7 (.step 0)
    ¬ x.TakesTurns [] beside ∧ (x.run beside).machine.outlet.frames.countP (Json.hasMethod "initialize") = 2 := by
  decide +kernel

end Liaison
