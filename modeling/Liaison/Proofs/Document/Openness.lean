import Liaison.Proofs.Document.Opening

/-!
# Opening once

One task at a time works on a document, and who opens it waits until that is written. So nobody opens a document
again that was opened, and nobody speaks of a document before the server has been told that it is open.
-/

namespace Liaison

def Offered (uri : String) (ticket : Nat) (h : History) : Prop :=
  ∃ t frame, ⟨t, .enqueue frame, some ticket⟩ ∈ h ∧ frame.opens uri = true

def Refused (ticket : Nat) (h : History) : Prop :=
  ∃ t receipt, receipt ≠ .written ∧ ⟨t, .awaitReceipt ticket, receipt⟩ ∈ h

def AnyOpens (uri : String) (frames : List Json) : Prop :=
  ∃ frame ∈ frames, frame.opens uri = true

/-- Every frame about a document opens it or comes after one that does, unless it is formal. -/
def IsOpenedFirst (frames : List Json) : Prop :=
  InOrder (fun before frame => frame.IsFormal ∨
    ∀ uri, frame.document? = some uri → frame.opens uri = true ∨ AnyOpens uri before) frames

section

variable {h : History} {uri : String} {ticket : Nat} {d : Deed}

theorem Offered.concat (ho : Offered uri ticket h) : Offered uri ticket (h ++ [d]) := by
  obtain ⟨t, frame, hm, hf⟩ := ho
  exact ⟨t, frame, List.mem_append_left _ hm, hf⟩

theorem offered_concat (ho : Offered uri ticket (h ++ [d])) : Offered uri ticket h ∨
    ∃ t frame, d = ⟨t, .enqueue frame, some ticket⟩ ∧ frame.opens uri = true := by
  obtain ⟨t, frame, hm, hf⟩ := ho
  rcases List.mem_append.mp hm with hm | hm
  · exact .inl ⟨t, frame, hm, hf⟩
  · exact .inr ⟨t, frame, (List.mem_singleton.mp hm).symm, hf⟩

theorem Refused.concat (hr : Refused ticket h) : Refused ticket (h ++ [d]) := by
  obtain ⟨t, receipt, hne, hm⟩ := hr
  exact ⟨t, receipt, hne, List.mem_append_left _ hm⟩

theorem Offered.anyOpens (ho : Offered uri ticket h) : AnyOpens uri (handedIn h) := by
  obtain ⟨t, frame, hm, hf⟩ := ho
  exact ⟨frame, List.mem_filterMap.mpr ⟨_, hm, rfl⟩, hf⟩

theorem document?_of_opens {frame : Json} (h : frame.opens uri = true) : frame.document? = some uri := by
  simp only [Json.opens, Bool.and_eq_true, decide_eq_true_eq] at h
  exact h.2

end

/-! ## What an action does to documents and lines -/

section

variable {m m' : Machine} {t u : TaskId} {a : Action} {answer : a.Answer} {uri : String}

theorem get?_perform (hp : m.perform t a = some (answer, m')) :
    (∃ uri after, a = .commit uri after ∧ ∀ v, m'.documents.get? v = if v = uri then after else m.documents.get? v) ∨
      (∀ uri after, a ≠ .commit uri after) ∧ ∀ v, m'.documents.get? v = m.documents.get? v := by
  cases a with
  | commit uri after =>
    cases hp
    exact .inl ⟨uri, after, rfl, fun v => get?_commit _ uri v after⟩
  | lineUp uri | document uri | leave uri =>
    cases hp
    exact .inr ⟨by simp, fun _ => rfl⟩
  | awaitTurn uri =>
    simp only [Machine.perform] at hp
    split at hp <;> cases hp
    exact .inr ⟨by simp, fun _ => rfl⟩
  | _ => exact .inr ⟨by simp, documents_perform hp rfl⟩

theorem get?_of_document {document : Option OpenDocument} (hp : m.perform t (.document uri) = some (document, m')) :
    m'.documents.get? uri = document := by
  simp only [Machine.perform, Option.some.injEq, Prod.mk.injEq] at hp
  obtain ⟨hd, rfl⟩ := hp
  exact hd

theorem head?_perform (hp : m.perform t a = some (answer, m'))
    (hl : ∀ v, a = .leave v → (m.line v).head? = some t) (hu : u = t → ∀ v, a ≠ .leave v)
    (hh : (m.line uri).head? = some u) : (m'.line uri).head? = some u := by
  cases a with
  | lineUp v =>
    cases hp
    rw [line_insert]
    split
    · rename_i e
      rw [List.head?_append, ← e, hh]
      rfl
    · exact hh
  | leave v =>
    cases hp
    rw [line_insert]
    split
    · rename_i e
      rw [e, hl v rfl] at hh
      exact absurd rfl (hu (Option.some.inj hh).symm v)
    · exact hh
  | awaitTurn v =>
    simp only [Machine.perform] at hp
    split at hp <;> cases hp
    exact hh
  | document v | commit v after =>
    cases hp
    exact hh
  | _ => rwa [Machine.line, lines_perform hp rfl]

theorem head?_of_awaitTurn (hp : m.perform t (.awaitTurn uri) = some ((), m')) :
    (m'.line uri).head? = some t := by
  simp only [Machine.perform] at hp
  split at hp
  · rename_i hh
    cases hp
    exact hh
  · cases hp

theorem head?_drop (ht : u ≠ t) (hh : (m.line uri).head? = some u) : ((m.drop t).line uri).head? = some u := by
  rw [Machine.drop]
  split
  · exact hh
  · rw [Machine.line] at hh ⊢
    rw [Table.get?_map]
    cases hline : m.lines.get? uri with
    | none => simp [hline] at hh
    | some line =>
      rw [hline, Option.getD_some] at hh
      obtain ⟨rest, rfl⟩ := List.head?_eq_some_iff.mp hh
      simp [ht]

end

/-! ## What turns do -/

namespace Opening

def turn? : Opening → Option String
  | first uri | bare uri | offering uri _ | accepted uri _ | working uri => some uri
  | _ => none

def closed? : Opening → Option String
  | bare uri | offering uri _ | accepted uri _ => some uri
  | _ => none

def offer? : Opening → Option (String × Nat)
  | offering uri ticket | accepted uri ticket => some (uri, ticket)
  | _ => none

section

variable {place : Opening} {uri : String} {ticket : Nat}

theorem turn?_of_closed? (h : place.closed? = some uri) : place.turn? = some uri := by
  cases place <;> first | exact h | cases h

theorem closed?_of_offer? (h : place.offer? = some (uri, ticket)) : place.closed? = some uri := by
  cases place <;> cases h <;> rfl

end

namespace Turn

variable {place place' : Opening} {a : Action} {answer : a.Answer} {uri : String} {ticket : Nat} {frame : Json}

theorem bound (h : Turn place a answer place') (hp : place ≠ unbound) : place' ≠ unbound := by
  cases h with
  | @find uri document => cases document <;> exact Opening.noConfusion
  | speak | other => exact hp
  | _ => exact Opening.noConfusion

theorem turn?_of_leave (h : Turn place a answer place') (ha : a = .leave uri) : place.turn? = some uri := by
  subst ha
  cases h with
  | giveUp | leave => rfl
  | other ha => cases ha

theorem turn?_cases (h : Turn place a answer place') (hp : place'.turn? = some uri) :
    (place.turn? = some uri ∧ ∀ v, a ≠ .leave v) ∨ a = .awaitTurn uri := by
  cases h with
  | come =>
    cases hp
    exact .inr rfl
  | @find uri document => cases document <;> exact .inl ⟨hp, by simp⟩
  | lineUp | giveUp | leave => cases hp
  | other ha => exact .inl ⟨hp, fun v e => by subst e; cases ha⟩
  | _ => exact .inl ⟨hp, by simp⟩

theorem closed?_cases (t : TaskId) (h : Turn place a answer place') (hp : place'.closed? = some uri) :
    (place.closed? = some uri ∧ ∀ v after, a ≠ .commit v after) ∨
      (⟨t, a, answer⟩ : Deed) = ⟨t, .document uri, none⟩ := by
  cases h with
  | @find uri document =>
    cases document with
    | none =>
      cases hp
      exact .inr rfl
    | some d => cases hp
  | lineUp | come | commit | update | giveUp | leave => cases hp
  | other ha => exact .inl ⟨hp, fun v after e => by subst e; cases ha⟩
  | _ => exact .inl ⟨hp, by simp⟩

theorem known?_cases (t : TaskId) (h : Turn place a answer place') (hp : place'.known? = some uri) :
    place.known? = some uri ∨ (∃ document, (⟨t, a, answer⟩ : Deed) = ⟨t, .document uri, some document⟩) ∨
      ∃ document, a = .commit uri (some document) := by
  cases h with
  | @find uri document =>
    cases document with
    | none => cases hp
    | some d =>
      cases hp
      exact .inr (.inl ⟨d, rfl⟩)
  | @commit uri ticket document =>
    cases hp
    exact .inr (.inr ⟨document, rfl⟩)
  | lineUp | come | offer | accept | refuse | giveUp => cases hp
  | _ => exact .inl hp

theorem commit_cases (h : Turn place a answer place') {after : Option OpenDocument} (ha : a = .commit uri after) :
    place.turn? = some uri ∧ after ≠ none ∧
      (place.known? = some uri ∨ ∃ ticket, place.offer? = some (uri, ticket)) := by
  subst ha
  cases h with
  | @commit uri ticket document => exact ⟨rfl, Option.some_ne_none _, .inr ⟨ticket, rfl⟩⟩
  | update => exact ⟨rfl, Option.some_ne_none _, .inl rfl⟩
  | other ha => cases ha

theorem offer?_cases (t : TaskId) (h : Turn place a answer place') (hp : place'.offer? = some (uri, ticket)) :
    place.offer? = some (uri, ticket) ∨
      ∃ frame, (⟨t, a, answer⟩ : Deed) = ⟨t, .enqueue frame, some ticket⟩ ∧ frame.opens uri = true := by
  cases h with
  | offer hf =>
    cases hp
    exact .inr ⟨_, rfl, hf⟩
  | @find uri document => cases document <;> cases hp
  | lineUp | come | refuse | commit | update | giveUp | leave => cases hp
  | _ => exact .inl hp

theorem offer?_stands (t : TaskId) (h : Turn place a answer place') (hp : place.offer? = some (uri, ticket)) :
    place'.offer? = some (uri, ticket) ∨
      (∃ receipt, receipt ≠ .written ∧ (⟨t, a, answer⟩ : Deed) = ⟨t, .awaitReceipt ticket, receipt⟩) ∨
      ∃ document, a = .commit uri (some document) := by
  cases h with
  | refuse hr =>
    cases hp
    exact .inr (.inl ⟨_, hr, rfl⟩)
  | @commit uri ticket document =>
    cases hp
    exact .inr (.inr ⟨document, rfl⟩)
  | lineUp | come | find | offer | update | giveUp | leave => cases hp
  | _ => exact .inl hp

theorem offer_of_opens {t u : TaskId} (h : Turn place a answer place')
    (hd : (⟨t, a, answer⟩ : Deed) = ⟨u, .enqueue frame, some ticket⟩) (hf : frame.opens uri = true) :
    place = bare uri ∧ place' = offering uri ticket := by
  cases hd
  cases h with
  | offer hf' =>
    cases (document?_of_opens hf).symm.trans (document?_of_opens hf')
    exact ⟨rfl, rfl⟩
  | speak hs =>
    have hmethod : frame.hasMethod "textDocument/didOpen" = true := (Bool.and_eq_true_iff.mp hf).1
    rcases hs with hformal | hknown
    · rw [hformal.hasMethod_eq_false (by simp)] at hmethod
      cases hmethod
    · rw [(hknown uri (document?_of_opens hf)).2] at hmethod
      cases hmethod
  | other _ hh => cases hh t

theorem hand_cases {t : TaskId} (h : Turn place a answer place')
    (hh : Deed.handsIn? ⟨t, a, answer⟩ = some frame) : (∃ uri, frame.opens uri = true) ∨ Suits place.known? frame := by
  cases h with
  | offer hf =>
    cases hh
    exact .inl ⟨_, hf⟩
  | speak hs =>
    cases hh
    exact .inr hs
  | other _ hn => cases (hn t).symm.trans hh
  | _ => cases hh

end Turn

end Opening

/-! ## Opening once -/

structure Openness (x : Course) (places : TaskId → Opening) : Prop where
  bound : ∀ t, places t ≠ .unbound
  head : ∀ t uri, (places t).turn? = some uri → (x.machine.line uri).head? = some t
  closed : ∀ t uri, (places t).closed? = some uri → x.machine.documents.get? uri = none
  known : ∀ t uri, (places t).known? = some uri → x.machine.documents.get? uri ≠ none
  offered : ∀ t uri ticket, (places t).offer? = some (uri, ticket) → Offered uri ticket x.history
  opened : ∀ uri, x.machine.documents.get? uri ≠ none → ∃ ticket, Offered uri ticket x.history
  settled : ∀ uri ticket, Offered uri ticket x.history → Refused ticket x.history ∨
    x.machine.documents.get? uri ≠ none ∨ ∃ t, (places t).offer? = some (uri, ticket)
  once : ∀ uri ticket ticket', Offered uri ticket x.history → Offered uri ticket' x.history →
    ticket = ticket' ∨ Refused ticket x.history ∨ Refused ticket' x.history
  order : IsOpenedFirst (handedIn x.history)

namespace Openness

variable {x : Course} {places : TaskId → Opening} {place : Opening} {t u : TaskId} {a : Action} {answer : a.Answer}
  {m : Machine} {uri : String} {ticket : Nat} {frame : Json}

theorem eq_of_turn? (h : Openness x places) (ht : (places t).turn? = some uri) (hu : (places u).turn? = some uri) :
    u = t := by
  have hhead := h.head u uri hu
  rw [h.head t uri ht] at hhead
  exact (Option.some.inj hhead).symm

theorem open_after (hturn : Opening.Turn (places t) a answer place)
    (hp : x.machine.perform t a = some (answer, m)) (ho : x.machine.documents.get? uri ≠ none) :
    m.documents.get? uri ≠ none := by
  rcases get?_perform hp with ⟨v, after, rfl, he⟩ | ⟨-, he⟩
  · rw [he]
    split
    · exact (hturn.commit_cases rfl).2.1
    · exact ho
  · rwa [he]

theorem closed_after (hp : x.machine.perform t a = some (answer, m)) (hc : x.machine.documents.get? uri = none)
    (ha : ∀ after, a ≠ .commit uri after) : m.documents.get? uri = none := by
  rcases get?_perform hp with ⟨v, after, rfl, he⟩ | ⟨-, he⟩
  · rw [he, if_neg]
    · exact hc
    · rintro rfl
      exact ha after rfl
  · rwa [he]

theorem open_of_commit {document : OpenDocument}
    (hp : x.machine.perform t (.commit uri (some document)) = some ((), m)) : m.documents.get? uri ≠ none := by
  cases hp
  rw [get?_commit, if_pos rfl]
  exact Option.some_ne_none _

/-- Who opens a document finds that all that was handed in before to open it was refused. -/
theorem refused_of_bare (h : Openness x places) (hplace : places t = .bare uri) (ho : Offered uri ticket x.history) :
    Refused ticket x.history := by
  rcases h.settled uri ticket ho with hr | hopen | ⟨u, hu⟩
  · exact hr
  · exact absurd (h.closed t uri (by rw [hplace]; rfl)) hopen
  · have hturn := Opening.turn?_of_closed? (Opening.closed?_of_offer? hu)
    obtain rfl : u = t := h.eq_of_turn? (by rw [hplace]; rfl) hturn
    rw [hplace] at hu
    cases hu

theorem anyOpens_of_known? (h : Openness x places) (hk : (places t).known? = some uri) :
    AnyOpens uri (handedIn x.history) := by
  obtain ⟨ticket, ho⟩ := h.opened uri (h.known t uri hk)
  exact ho.anyOpens

theorem opened_after (h : Openness x places) (hturn : Opening.Turn (places t) a answer place)
    (hp : x.machine.perform t a = some (answer, m)) (ho : m.documents.get? uri ≠ none) :
    ∃ ticket, Offered uri ticket x.history := by
  by_cases hx : x.machine.documents.get? uri = none
  · by_cases ha : ∃ after, a = .commit uri after
    · obtain ⟨after, rfl⟩ := ha
      obtain ⟨-, -, hknown | ⟨ticket, hoffer⟩⟩ := hturn.commit_cases rfl
      · exact absurd hx (h.known t uri hknown)
      · exact ⟨ticket, h.offered t uri ticket hoffer⟩
    · exact absurd (closed_after hp hx fun after e => ha ⟨after, e⟩) ho
  · exact h.opened uri hx

theorem settled_after (h : Openness x places) (hturn : Opening.Turn (places t) a answer place)
    (hp : x.machine.perform t a = some (answer, m)) (ho : Offered uri ticket (x.history ++ [⟨t, a, answer⟩])) :
    Refused ticket (x.history ++ [⟨t, a, answer⟩]) ∨ m.documents.get? uri ≠ none ∨
      ∃ u, (Function.update places t place u).offer? = some (uri, ticket) := by
  rcases offered_concat ho with ho | ⟨v, frame, hd, hf⟩
  · rcases h.settled uri ticket ho with hr | hopen | ⟨u, hu⟩
    · exact .inl hr.concat
    · exact .inr (.inl (open_after hturn hp hopen))
    · by_cases e : u = t
      · subst e
        rcases hturn.offer?_stands u hu with hoffer | ⟨receipt, hr, hd⟩ | ⟨document, rfl⟩
        · exact .inr (.inr ⟨u, by rwa [Function.update_self]⟩)
        · exact .inl ⟨u, receipt, hr, by simp [hd]⟩
        · exact .inr (.inl (open_of_commit hp))
      · exact .inr (.inr ⟨u, by rwa [Function.update_of_ne e]⟩)
  · obtain ⟨-, rfl⟩ := hturn.offer_of_opens hd hf
    exact .inr (.inr ⟨t, by rw [Function.update_self]; rfl⟩)

theorem once_after (h : Openness x places) (hturn : Opening.Turn (places t) a answer place) {ticket' : Nat}
    (ho : Offered uri ticket (x.history ++ [⟨t, a, answer⟩]))
    (ho' : Offered uri ticket' (x.history ++ [⟨t, a, answer⟩])) :
    ticket = ticket' ∨ Refused ticket (x.history ++ [⟨t, a, answer⟩]) ∨
      Refused ticket' (x.history ++ [⟨t, a, answer⟩]) := by
  rcases offered_concat ho with ho | ⟨v, frame, hd, hf⟩
  · rcases offered_concat ho' with ho' | ⟨v', frame', hd', hf'⟩
    · rcases h.once uri ticket ticket' ho ho' with he | hr | hr
      · exact .inl he
      · exact .inr (.inl hr.concat)
      · exact .inr (.inr hr.concat)
    · -- The new offer comes from a task whose turn it is: the old one was refused.
      exact .inr (.inl (h.refused_of_bare (hturn.offer_of_opens hd' hf').1 ho).concat)
  · rcases offered_concat ho' with ho' | ⟨v', frame', hd', hf'⟩
    · exact .inr (.inr (h.refused_of_bare (hturn.offer_of_opens hd hf).1 ho').concat)
    · cases hd.symm.trans hd'
      exact .inl rfl

theorem order_after (h : Openness x places) (hturn : Opening.Turn (places t) a answer place) :
    IsOpenedFirst (handedIn (x.history ++ [⟨t, a, answer⟩])) := by
  rw [handedIn_concat]
  cases hd : Deed.handsIn? ⟨t, a, answer⟩ with
  | none => simpa using h.order
  | some frame =>
    apply InOrder.concat h.order
    -- A message about a document that is neither formal nor opens it comes from one who knows it to be open.
    rcases hturn.hand_cases hd with ⟨uri, hf⟩ | hformal | hknown
    · right
      intro v hv
      cases (document?_of_opens hf).symm.trans hv
      exact .inl hf
    · exact .inl hformal
    · exact .inr fun v hv => .inr (h.anyOpens_of_known? (hknown v hv).1)

theorem act (h : Openness x places) (hturn : Opening.Turn (places t) a answer place)
    (hp : x.machine.perform t a = some (answer, m)) :
    Openness ⟨m, x.history ++ [⟨t, a, answer⟩]⟩ (Function.update places t place) := by
  have hother : ∀ u, u ≠ t → Function.update places t place u = places u := fun u hu => Function.update_of_ne hu ..
  constructor
  case bound =>
    intro u
    by_cases e : u = t
    · subst e
      rw [Function.update_self]
      exact hturn.bound (h.bound u)
    · rw [hother u e]
      exact h.bound u
  case head =>
    have hstill : ∀ u uri, (places u).turn? = some uri → (u = t → ∀ v, a ≠ .leave v) →
        (m.line uri).head? = some u := fun u uri hu hl =>
      head?_perform hp (fun v hv => h.head t v (hturn.turn?_of_leave hv)) hl (h.head u uri hu)
    intro u uri hu
    by_cases e : u = t
    · subst e
      rw [Function.update_self] at hu
      rcases hturn.turn?_cases hu with ⟨hold, hl⟩ | rfl
      · exact hstill u uri hold fun _ => hl
      · exact head?_of_awaitTurn hp
    · rw [hother u e] at hu
      exact hstill u uri hu fun he => absurd he e
  case closed =>
    intro u uri hu
    by_cases e : u = t
    · subst e
      rw [Function.update_self] at hu
      rcases hturn.closed?_cases u hu with ⟨hold, ha⟩ | hd
      · exact closed_after hp (h.closed u uri hold) (ha uri)
      · cases hd
        exact get?_of_document hp
    · rw [hother u e] at hu
      apply closed_after hp (h.closed u uri hu)
      -- Nobody else works on the document.
      intro after ha
      exact e (h.eq_of_turn? (hturn.commit_cases ha).1 (Opening.turn?_of_closed? hu))
  case known =>
    intro u uri hu
    by_cases e : u = t
    · subst e
      rw [Function.update_self] at hu
      rcases hturn.known?_cases u hu with hold | ⟨document, hd⟩ | ⟨document, rfl⟩
      · exact open_after hturn hp (h.known u uri hold)
      · cases hd
        rw [get?_of_document hp]
        exact Option.some_ne_none _
      · exact open_of_commit hp
    · rw [hother u e] at hu
      exact open_after hturn hp (h.known u uri hu)
  case offered =>
    intro u uri ticket hu
    by_cases e : u = t
    · subst e
      rw [Function.update_self] at hu
      rcases hturn.offer?_cases u hu with hold | ⟨frame, hd, hf⟩
      · exact (h.offered u uri ticket hold).concat
      · exact ⟨u, frame, by simp [hd], hf⟩
    · rw [hother u e] at hu
      exact (h.offered u uri ticket hu).concat
  case opened =>
    intro uri ho
    obtain ⟨ticket, ho⟩ := h.opened_after hturn hp ho
    exact ⟨ticket, ho.concat⟩
  case settled => exact fun uri ticket => h.settled_after hturn hp
  case once => exact fun uri ticket ticket' => h.once_after hturn
  case order => exact h.order_after hturn

theorem congr (h : Openness x places) (hd : m.documents = x.machine.documents)
    (hl : ∀ t uri, (x.machine.line uri).head? = some t → (m.line uri).head? = some t) :
    Openness ⟨m, x.history⟩ places := by
  refine ⟨h.bound, ?_, ?_, ?_, h.offered, ?_, ?_, h.once, h.order⟩
  · exact fun t uri ht => hl t uri (h.head t uri ht)
  all_goals simp only [hd]
  · exact h.closed
  · exact h.known
  · exact h.opened
  · exact h.settled

theorem of_enters (h : Openness x places) (he : Opening.placement.Enters x.machine places t place) :
    place = .away none ∧ (places t).offer? = none := by
  have hunused : Opening.placement.Unused x.machine places t → (places t).offer? = none := by
    intro hu
    rw [hu.place]
    rfl
  cases he with
  | start hu ha => exact ⟨rfl, hunused hu⟩
  | @spawn u phase hu ha =>
    refine ⟨?_, hunused hu⟩
    cases hplace : places u with
    | away known =>
      rw [hplace] at ha
      exact ha
    | unbound => exact absurd hplace (h.bound u)
    | accepted uri ticket =>
      rw [hplace] at ha
      obtain ⟨_, ha⟩ := ha
      cases ha
    | bare uri =>
      rw [hplace] at ha
      rcases ha with ha | ha | ⟨_, ha, -⟩ <;> cases ha
    | working uri =>
      rw [hplace] at ha
      cases ha.1
    | _ =>
      rw [hplace] at ha
      cases ha
  | resume hf =>
    rcases hf with ⟨hphase, known, hplace⟩ | hplace
    · exact ⟨hphase, by rw [hplace]; rfl⟩
    · exact absurd hplace (h.bound t)

theorem enter (h : Openness x places) (hoffer : (places t).offer? = none) :
    Openness x (Function.update places t (.away none)) := by
  -- At the new place nothing is held that the old one did not hold.
  have hold : ∀ {β : Type} (f : Opening → Option β) (b : β) (u : TaskId), f (.away none) = none →
      f (Function.update places t (.away none) u) = some b → f (places u) = some b := by
    intro β f b u hf hu
    by_cases e : u = t
    · rw [e, Function.update_self, hf] at hu
      cases hu
    · rwa [Function.update_of_ne e] at hu
  refine ⟨?_, ?_, ?_, ?_, ?_, h.opened, ?_, h.once, h.order⟩
  · intro u
    by_cases e : u = t
    · rw [e, Function.update_self]
      exact Opening.noConfusion
    · rw [Function.update_of_ne e]
      exact h.bound u
  · exact fun u uri hu => h.head u uri (hold Opening.turn? uri u rfl hu)
  · exact fun u uri hu => h.closed u uri (hold Opening.closed? uri u rfl hu)
  · exact fun u uri hu => h.known u uri (hold Opening.known? uri u rfl hu)
  · exact fun u uri ticket hu => h.offered u uri ticket (hold Opening.offer? (uri, ticket) u rfl hu)
  · intro uri ticket ho
    rcases h.settled uri ticket ho with hr | hopen | ⟨u, hu⟩
    · exact .inl hr
    · exact .inr (.inl hopen)
    · have hne : u ≠ t := by
        rintro rfl
        simp [hoffer] at hu
      exact .inr (.inr ⟨u, by rwa [Function.update_of_ne hne]⟩)

theorem upholds : Opening.placement.Upholds (fun x t => ∀ uri, (x.machine.line uri).head? ≠ some t) Openness where
  alike h hm := h.congr hm.documents fun t uri ht => by rwa [Machine.line, hm.lines]
  enter := by
    intro x places t s h hs
    obtain ⟨rfl, hoffer⟩ := h.of_enters hs
    exact h.enter hoffer
  act h ha hp := h.act (Opening.turn_after ha (h.bound _) _) hp
  drop h ht := h.congr (drop_eq _ _).2.1 fun u uri hu => head?_drop (fun e => ht uri (e ▸ hu)) hu

end Openness

theorem openness_connected (o : ClientOptions) (files : FileTree) (hasProcess : Bool) :
    Openness (Course.connected o files hasProcess) (Opening.placement.connected o files hasProcess (.away none)) := by
  have hplace : ∀ t, Opening.placement.connected o files hasProcess (.away none) t = .away none :=
    Placement.connected_eq rfl rfl (fun _ _ => rfl) rfl o files hasProcess
  have hhistory : (Course.connected o files hasProcess).history = [] := rfl
  have hdocuments : ∀ uri, (Course.connected o files hasProcess).machine.documents.get? uri = none := by
    intro uri
    cases hasProcess <;> rfl
  constructor <;>
    simp [hplace, hhistory, hdocuments, Opening.turn?, Opening.closed?, Opening.known?, Opening.offer?, Offered,
      IsOpenedFirst, InOrder, handedIn]

/-! ## Whole runs -/

/-- A list has at most one entry of a kind if two of them are never apart. -/
theorem length_filter_le_one_of_index {α : Type} {l : List α} {p : α → Bool}
    (h : ∀ i j (hi : i < l.length) (hj : j < l.length), p l[i] = true → p l[j] = true → i = j) :
    (l.filter p).length ≤ 1 := by
  have hpair : l.Pairwise fun a b => ¬ (p a = true ∧ p b = true) := by
    rw [List.pairwise_iff_getElem]
    intro i j hi hj hlt hp
    exact Nat.ne_of_lt hlt (h i j hi hj hp.1 hp.2)
  have hnone : (l.filter p).Pairwise fun _ _ => False :=
    (hpair.filter p).imp_of_mem fun ha hb hp => hp ⟨(List.mem_filter.mp ha).2, (List.mem_filter.mp hb).2⟩
  match hl : l.filter p with
  | [] => simp
  | [_] => simp
  | a :: b :: rest =>
    rw [hl, List.pairwise_cons] at hnone
    exact (hnone.1 b (by simp)).elim

/-- What was written was handed in under the ticket that tells its position, and nobody was told otherwise. -/
theorem WriteInvariant.offered {occurrences : List Occurrence} {x : Course} {places : TaskId → Writing}
    (h : WriteInvariant occurrences x places) {uri : String} {i : Nat} (hi : i < x.machine.outlet.frames.length)
    (hf : x.machine.outlet.frames[i].opens uri = true) : Offered uri i x.history ∧ ¬ Refused i x.history := by
  constructor
  · have hsends : .send x.machine.outlet.frames[i] i ∈ sends x.machine.outlet.frames :=
      List.mem_map.mpr ⟨(x.machine.outlet.frames[i], i), by simp [List.mem_zipIdx_iff_getElem?], rfl⟩
    have hpre := (List.prefix_append _ _).trans h.books.account.sends_isPrefix
    obtain ⟨⟨t, a, answer⟩, hm, hd⟩ := List.mem_filterMap.mp (hpre.subset hsends)
    cases a with
    | enqueue frame =>
      cases answer with
      | none => cases hd
      | some ticket =>
        cases hd
        exact ⟨t, _, hm, hf⟩
    | enqueueClose => cases hd
    | _ => cases hd
  · rintro ⟨t, receipt, hne, hm⟩
    exact hne ((h.books.notices.written_iff i receipt (.inr ⟨t, hm⟩)).mpr hi)

/-- Whatever happens to a session in which nobody closes documents: each document is opened once at most, and what is
about a document and not formal comes after the message that opens it. No task may be dropped as long as it has its
turn: if it has handed in the message that opens the document, the next one does so again. -/
theorem didOpen_once_and_first (o : ClientOptions) (files : FileTree) (hasProcess : Bool)
    (occurrences : List Occurrence)
    (h : ∀ op, .start op ∈ occurrences → op.isRaw = false ∧ ∀ path, op ≠ .closeFile path)
    (hd : ∀ first t later, occurrences = first ++ .drop t :: later →
      ∀ uri, (((Course.connected o files hasProcess).run first).machine.line uri).head? ≠ some t) :
    let x := (Course.connected o files hasProcess).run occurrences
    (∀ uri, (x.machine.outlet.frames.filter (Json.opens uri)).length ≤ 1) ∧ IsOpenedFirst x.machine.outlet.frames := by
  intro x
  have hconnecting : connecting.Keeps Opening.rules (.away none) Opening.placement.Fits := ⟨rfl, fun _ => trivial⟩
  obtain ⟨_, hopenness⟩ :=
    Openness.upholds.run_connected hconnecting (openness_connected o files hasProcess) occurrences h hd
  obtain ⟨_, hwritten⟩ := writeInvariant_run_connected o files hasProcess occurrences
  refine ⟨?_, InOrder.of_isPrefix hopenness.order hwritten.frames_isPrefix⟩
  intro uri
  apply length_filter_le_one_of_index
  intro i j hi hj hfi hfj
  obtain ⟨hoi, hri⟩ := hwritten.offered hi hfi
  obtain ⟨hoj, hrj⟩ := hwritten.offered hj hfj
  rcases hopenness.once uri i j hoi hoj with he | hr | hr
  · exact he
  · exact absurd hr hri
  · exact absurd hr hrj

/-- A client is connected to a server, and the handshake is carried out. -/
def welcomed : List Occurrence :=
  List.flatten [
    turns 2 [3], [.start .handshake], turns 9 [4, 0],
    [.receive (Frame.write (Message.reply (.ofNat 1) (.obj [])).toJson)], turns 9 [1, 4, 0]]

def oneFile (c : UInt8) : FileTree :=
  ⟨[([[0x77]], .directory), ([[0x77], [0x61]], .file [c])], []⟩

/-- Two open a file at the same time, and one of them asks about a place in it. Then the file changes. -/
def openedTogether : List Occurrence :=
  List.flatten [
    welcomed, [.start (.openFile [0x61]), .start (.hover ⟨[0x61], 1, 1⟩ none)], turns 30 [5, 6, 0],
    [.setFiles (oneFile 0x79), .start (.fileChanged [0x61])], turns 15 [7, 0]]

theorem didOpen_once_and_first_openedTogether :
    let x := (Course.connected plainOptions (oneFile 0x78) false).run openedTogether
    x.machine.outlet.frames.map (fun frame => (frame.document?, ["textDocument/didOpen", "textDocument/hover",
        "textDocument/didChange"].map frame.hasMethod)) =
      [(none, [false, false, false]), (none, [false, false, false]), (some "file:///w/a", [true, false, false]),
        (some "file:///w/a", [false, true, false]), (some "file:///w/a", [false, false, true])] ∧
      (∀ uri, (x.machine.outlet.frames.filter (Json.opens uri)).length ≤ 1) ∧
      IsOpenedFirst x.machine.outlet.frames := by
  refine ⟨by decide +kernel, ?_⟩
  apply didOpen_once_and_first plainOptions (oneFile 0x78) false openedTogether
  · intro op hop
    simp [openedTogether, welcomed] at hop
    rcases hop with rfl | rfl | rfl | rfl <;> exact ⟨rfl, fun path => Operation.noConfusion⟩
  · intro first t later he
    have hmem : .drop t ∈ openedTogether := by simp [he]
    simp [openedTogether, welcomed] at hmem

/-- A task is dropped that waits for the receipt, and the next one opens the document again. -/
example :
    ((Course.connected plainOptions (oneFile 0x78) false).run (List.flatten [
      welcomed, [.start (.openFile [0x61])], turns 10 [5], [.drop 5, .start (.openFile [0x61])],
      turns 30 [6, 0]])).machine.outlet.frames.countP (Json.opens "file:///w/a") = 2 := by
  decide +kernel

end Liaison
