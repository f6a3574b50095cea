import SeriesPipeline.Proofs.Stage.Barriers

/-!
# Stages on their way

What a stage has become and has given out by the envelopes that it has taken so far, while it may
still take more. The clock shows in nothing but the time at which alerts were observed.
-/

namespace SeriesPipeline

namespace Reaction

theorem append_none (r : Reaction) : r ++ none = r := by
  show mk _ _ _ = r
  rw [none, List.append_nil, List.append_nil, List.append_nil]

theorem append_assoc (r s t : Reaction) : r ++ s ++ t = r ++ (s ++ t) := by
  show mk _ _ _ = mk _ _ _
  rw [mk.injEq]
  exact ⟨List.append_assoc .., List.append_assoc .., List.append_assoc ..⟩

end Reaction

/-- A stage on its way, with all that it has given out. -/
structure Course where
  stage : Stage
  reaction : Reaction
  progress : Progress

namespace Course

def start (s : Stage) : Course := ⟨s, .none, .running⟩

/-- Takes one envelope, unless the stage has ended. -/
def take (now : Instant) (c : Course) (e : Envelope) : Course :=
  match c.progress with
  | .running =>
    let (stage, reaction, progress) := c.stage.receive now e
    ⟨stage, c.reaction ++ reaction, progress⟩
  | _ => c

/-- A course with something given out before. -/
def after (r : Reaction) (c : Course) : Course := { c with reaction := r ++ c.reaction }

variable {now : Instant} {c : Course} {e : Envelope}

theorem take_of_running (h : c.progress = .running) :
    c.take now e = ⟨(c.stage.receive now e).1, c.reaction ++ (c.stage.receive now e).2.1,
      (c.stage.receive now e).2.2⟩ := by
  rw [take, h]

theorem take_of_ended (h : c.progress ≠ .running) : c.take now e = c := by
  rw [take]
  split
  · rename_i hrunning
    exact absurd hrunning h
  · rfl

theorem take_after (r : Reaction) (c : Course) (e : Envelope) :
    (c.after r).take now e = (c.take now e).after r := by
  by_cases h : c.progress = .running
  · rw [take_of_running h, take_of_running (c := c.after r) h, after, Reaction.append_assoc]
    rfl
  · rw [take_of_ended h, take_of_ended (c := c.after r) h]

end Course

namespace Stage

/-- What becomes of a stage by some envelopes. -/
def course (now : Instant) (s : Stage) (taken : List Envelope) : Course :=
  taken.foldl (Course.take now) (.start s)

variable {now : Instant} {s : Stage}

theorem course_concat (taken : List Envelope) (e : Envelope) :
    s.course now (taken ++ [e]) = (s.course now taken).take now e :=
  List.foldl_concat ..

theorem foldl_take_after (r : Reaction) (c : Course) (taken : List Envelope) :
    taken.foldl (Course.take now) (c.after r) = (taken.foldl (Course.take now) c).after r := by
  induction taken generalizing c with
  | nil => rfl
  | cons e rest ih => rw [List.foldl_cons, Course.take_after, ih, List.foldl_cons]

theorem foldl_take_of_ended {c : Course} (h : c.progress ≠ .running) (taken : List Envelope) :
    taken.foldl (Course.take now) c = c := by
  induction taken with
  | nil => rfl
  | cons e rest ih => rw [List.foldl_cons, Course.take_of_ended h, ih]

/-- Once a stage has ended, more envelopes change nothing. -/
theorem course_eq_of_isPrefix {taken more : List Envelope} (hbegins : taken <+: more)
    (h : (s.course now taken).progress ≠ .running) : s.course now more = s.course now taken := by
  obtain ⟨rest, rfl⟩ := hbegins
  rw [course, List.foldl_append]
  exact foldl_take_of_ended h rest

theorem course_cons_of_running {s' : Stage} {r : Reaction} {e : Envelope}
    (h : s.receive now e = (s', r, .running)) (rest : List Envelope) :
    s.course now (e :: rest) = (s'.course now rest).after r := by
  have hfirst : (Course.start s).take now e = (Course.start s').after r := by
    rw [Course.take_of_running rfl, show (Course.start s).stage.receive now e = _ from h]
    exact congrArg (Course.mk s' · .running) (Reaction.append_none r).symm
  rw [course, List.foldl_cons, hfirst, foldl_take_after]
  rfl

theorem course_cons_of_ended {s' : Stage} {r : Reaction} {e : Envelope} {progress : Progress}
    (h : s.receive now e = (s', r, progress)) (hended : progress ≠ .running)
    (rest : List Envelope) : s.course now (e :: rest) = ⟨s', r, progress⟩ := by
  have hfirst : (Course.start s).take now e = ⟨s', r, progress⟩ := by
    rw [Course.take_of_running rfl, show (Course.start s).stage.receive now e = _ from h]
    rfl
  rw [course, List.foldl_cons, hfirst]
  exact foldl_take_of_ended hended rest

/-- What has been sent by then is the beginning of all that the inbox comes to. -/
theorem sent_course_prefix_process (s : Stage) (taken : List Envelope) :
    (s.course now taken).reaction.sent <+: (s.process now taken).2.1.sent := by
  induction taken generalizing s with
  | nil => exact List.nil_prefix
  | cons e rest ih =>
    rcases hreceive : s.receive now e with ⟨s', r, progress⟩
    rw [process, hreceive]
    cases progress with
    | running =>
      rw [course_cons_of_running hreceive]
      exact (List.prefix_append_right_inj _).2 (ih s')
    | finished =>
      rw [course_cons_of_ended hreceive (by rintro ⟨⟩)]
    | failed cause =>
      rw [course_cons_of_ended hreceive (by rintro ⟨⟩)]

theorem sent_course (s : Stage) (taken : List Envelope) :
    (s.course now taken).reaction.sent <+: s.operator.messages now (s.marks.requests taken) :=
  (sent_course_prefix_process s taken).trans (sent_process s taken)

end Stage

end SeriesPipeline
