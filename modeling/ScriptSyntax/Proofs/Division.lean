import ScriptSyntax.Proofs.Truncation
import ScriptSyntax.Proofs.Writing

/-!
A source scanned in two parts. It may be divided anywhere but inside a token: between
two pieces, or inside a skipped one. What is behind the division is cut as it was in the
whole, since no rule looks behind itself. What is in front of it is cut as it was too, if
no word goes on behind; where the front ends with a blank, none does.

Main statements: the rest of a source scans to the lexemes of the source from there on;
and two parts that meet behind a skipped blank scan to lexemes that, put together, are
those of the whole.
-/

namespace ScriptSyntax

open Segment

/-! Lexemes from a byte on, and lexemes put together. -/

/-- What a skipped run has from a byte on. -/
def Skipped.clip (k : Nat) (s : Skipped) : Skipped :=
  if k ≤ s.span.start.offset.toNat then s
  else
    match Text.splitBytes? (k - s.span.start.offset.toNat) s.text.toList with
    | some (_, rest) => ⟨String.ofList rest, ⟨⟨.ofNat k, s.span.start.file⟩, s.span.stop⟩⟩
    | none => s

namespace Lexeme

/-- What a lexeme has from a byte on. Tokens are not divided. -/
def clip (k : Nat) : Lexeme → Lexeme
  | token t => token t
  | skipped s => skipped (s.clip k)

/-- The lexemes from a byte on, without those that end there or in front of it. -/
def fromByte (k : Nat) (lexemes : List Lexeme) : List Lexeme :=
  (lexemes.filter fun lexeme => k < lexeme.span.stop.offset.toNat).map (clip k)

@[simp] theorem fromByte_append (k : Nat) (lexemes more : List Lexeme) :
    fromByte k (lexemes ++ more) = fromByte k lexemes ++ fromByte k more := by
  simp [fromByte]

theorem fromByte_cons_of_le {k : Nat} {lexeme : Lexeme} (h : lexeme.span.stop.offset.toNat ≤ k)
    (lexemes : List Lexeme) : fromByte k (lexeme :: lexemes) = fromByte k lexemes := by
  rw [fromByte, List.filter_cons_of_neg (by simpa using h)]
  rfl

theorem fromByte_cons_of_lt {k : Nat} {lexeme : Lexeme} (h : k < lexeme.span.stop.offset.toNat)
    (lexemes : List Lexeme) :
    fromByte k (lexeme :: lexemes) = lexeme.clip k :: fromByte k lexemes := by
  rw [fromByte, List.filter_cons_of_pos (by simpa using h), List.map_cons]
  rfl

/-- Lexemes behind lexemes. A skipped run that ends the first and one that begins the
second are one run. -/
def join (front back : List Lexeme) : List Lexeme :=
  match front.getLast?, back with
  | some (skipped s), skipped r :: rest =>
      front.dropLast ++ skipped ⟨s.text ++ r.text, ⟨s.span.start, r.span.stop⟩⟩ :: rest
  | _, _ => front ++ back

theorem join_skipped (front : List Lexeme) (s r : Skipped) (rest : List Lexeme) :
    join (front ++ [skipped s]) (skipped r :: rest) =
      front ++ skipped ⟨s.text ++ r.text, ⟨s.span.start, r.span.stop⟩⟩ :: rest := by
  simp [join]

theorem join_of_not_skipped {front back : List Lexeme}
    (h : ∀ s r, front.getLast? = some (skipped s) → back.head? ≠ some (skipped r)) :
    join front back = front ++ back := by
  unfold join
  split
  · next s r rest hlast => exact absurd rfl (h s r hlast)
  · rfl

end Lexeme

/-- The position as counted from `bytes` bytes further in front. -/
def Position.forward (bytes : Nat) (p : Position) : Position :=
  { p with offset := p.offset + .ofNat bytes }

/-! Pieces of a whole, and the pieces of its two parts. -/

namespace Segment

/-- The pieces of a whole, divided between two of them or inside a skipped one. -/
inductive Divides : List Segment → List Segment → List Segment → Prop where
  | between (before after : List Segment) : Divides (before ++ after) before after
  | inside {run more : List Char} (before after : List Segment) (hrun : run ≠ [])
      (hmore : more ≠ []) :
      Divides (before ++ skipped (run ++ more) :: after) (before ++ [skipped run])
        (skipped more :: after)

variable {whole left right : List Segment} {front back : List Char}

theorem Divides.cons (h : Divides whole left right) (segment : Segment) :
    Divides (segment :: whole) (segment :: left) right := by
  cases h with
  | between => exact .between (segment :: left) right
  | inside before after hrun hmore => exact .inside (segment :: before) after hrun hmore

/-- Pieces can be divided at any place of their text that is not inside a token. -/
theorem exists_divides (h : textOfAll whole = front ++ back)
    (htoken : ∀ before kind text more after, whole = before ++ token kind (text ++ more) :: after →
      front = textOfAll before ++ text → text = [] ∨ more = []) :
    ∃ left right, Divides whole left right ∧ textOfAll left = front ∧ textOfAll right = back := by
  induction whole generalizing front with
  | nil =>
      obtain ⟨rfl, rfl⟩ := List.append_eq_nil_iff.mp h.symm
      exact ⟨[], [], .between [] [], rfl, rfl⟩
  | cons segment whole ih =>
      have hbehind (rest : List Char) (hfront : front = segment.text ++ rest)
          (hrest : textOfAll whole = rest ++ back) :
          ∃ left right, Divides (segment :: whole) left right ∧ textOfAll left = front ∧
            textOfAll right = back := by
        obtain ⟨left, right, hdivides, hleft, hright⟩ := ih hrest <| by
          rintro before kind text more after rfl rfl
          exact htoken (segment :: before) kind text more after rfl (by simp [hfront])
        exact ⟨segment :: left, right, hdivides.cons segment, by simp [hleft, hfront], hright⟩
      rw [textOfAll_cons] at h
      rcases List.append_eq_append_iff.mp h with ⟨rest, hfront, hrest⟩ | ⟨more, htext, hback⟩
      · exact hbehind rest hfront hrest
      · by_cases hmore : more = []
        · subst hmore
          exact hbehind [] (by simpa using htext.symm) (by simpa using hback.symm)
        by_cases hnone : front = []
        · subst hnone
          exact ⟨[], segment :: whole, .between [] _, rfl, h⟩
        -- the place is inside the first piece, which is then no token
        cases segment with
        | token kind text =>
            obtain rfl : text = front ++ more := htext
            exact ((htoken [] kind front more whole rfl rfl).elim hnone hmore).elim
        | skipped text =>
            obtain rfl : text = front ++ more := htext
            exact ⟨[skipped front], skipped more :: whole, .inside [] whole hnone hmore,
              by simp [Segment.text], hback.symm⟩

/-- What is behind the division falls into the same pieces by itself. -/
theorem Divides.segmentation_right {cs : List Char} (h : Divides whole left right)
    (hwhole : Segmentation cs whole) : Segmentation (textOfAll right) right := by
  cases h with
  | between => exact hwhole.behind
  | @inside run more before after hrun hmore =>
      obtain ⟨⟨_, halone, hunmatched⟩, rest, _, hafter⟩ := segmentation_cons_iff.mp hwhole.behind
      have hrest : Unmatched more (textOfAll after) := (unmatched_append_iff.mp hunmatched).2
      rw [segmentation_cons_iff]
      exact ⟨⟨hmore, halone, hrest⟩, rest, by rw [← hafter.text_eq]; rfl, hafter⟩

/-- What is in front of the division does so too, if no word goes on behind it. -/
theorem Divides.segmentation_left {cs : List Char} (h : Divides whole left right)
    (hwhole : Segmentation cs whole) (hcut : CleanCut (textOfAll left) (textOfAll right)) :
    Segmentation (textOfAll left) left := by
  cases h with
  | between => exact hwhole.before_cut hcut
  | @inside run more before after hrun hmore =>
      refine ⟨rfl, ?_⟩
      intro front segment behind hsplit
      have hbehind (hne : segment.text ≠ []) :
          CleanCut (segment.text ++ textOfAll behind) (more ++ textOfAll after) := by
        rw [hsplit, textOfAll_append] at hcut
        exact hcut.of_append (by simp [hne])
      rcases List.eq_nil_or_concat behind with rfl | ⟨mid, last, rfl⟩
      · -- the last piece is the front of the one that was divided
        obtain ⟨rfl, hlast⟩ := List.append_inj' hsplit rfl
        obtain rfl : skipped run = segment := by simpa using hlast
        obtain ⟨_, _, hunmatched⟩ := hwhole.fits before _ after rfl
        have hrest : Unmatched run ([] ++ (more ++ textOfAll after)) :=
          (unmatched_append_iff.mp hunmatched).1
        exact ⟨hrun, by simp, hrest.of_append (hbehind hrun)⟩
      · -- the others had all of that one behind them
        have hconcat : before ++ [skipped run] = (front ++ segment :: mid) ++ [last] := by
          simpa using hsplit
        obtain ⟨rfl, hlast⟩ := List.append_inj' hconcat rfl
        obtain rfl : skipped run = last := by simpa using hlast
        have hfits := hwhole.fits front segment (mid ++ skipped (run ++ more) :: after) (by simp)
        apply hfits.of_append _ _ (hbehind hfits.text_ne_nil)
        · simp [Segment.text]
        · intro other hother
          cases mid with
          | nil => exact ⟨run ++ more, rfl⟩
          | cons next mid => exact ⟨other, hother⟩

section Places

variable {file : String} {start k : Nat} {segments : List Segment}

theorem stop_lexeme (segment : Segment) {stop : Nat} (hshort : stop < UInt32.size) :
    (segment.lexeme (.between file start stop)).span.stop.offset.toNat = stop := by
  rw [lexeme_span]
  exact UInt32.toNat_ofNat_of_lt' hshort

/-- Nothing is left of pieces that end in front of a byte. -/
theorem fromByte_placed_of_le (hk : start + Text.byteLength (textOfAll segments) ≤ k)
    (hshort : k < UInt32.size) : Lexeme.fromByte k (placed file start segments) = [] := by
  induction segments generalizing start with
  | nil => rfl
  | cons segment segments ih =>
      rw [textOfAll_cons, Text.byteLength_append] at hk
      rw [placed, Lexeme.fromByte_cons_of_le]
      · exact ih (by omega)
      · rw [stop_lexeme _ (by omega)]
        omega

/-- Pieces that begin behind a byte stay as they are. -/
theorem fromByte_placed_of_ge (hk : k ≤ start) (hne : ∀ segment ∈ segments, segment.text ≠ [])
    (hshort : start + Text.byteLength (textOfAll segments) < UInt32.size) :
    Lexeme.fromByte k (placed file start segments) = placed file start segments := by
  induction segments generalizing start with
  | nil => rfl
  | cons segment segments ih =>
      obtain ⟨hfirst, hmore⟩ := List.forall_mem_cons.mp hne
      have hpos := Text.byteLength_pos hfirst
      rw [textOfAll_cons, Text.byteLength_append] at hshort
      have hstart : k ≤ (UInt32.ofNat start).toNat := by
        rw [UInt32.toNat_ofNat_of_lt' (by omega)]
        exact hk
      have hsame : (segment.lexeme
          (.between file start (start + Text.byteLength segment.text))).clip k =
          segment.lexeme (.between file start (start + Text.byteLength segment.text)) := by
        cases segment with
        | token => rfl
        | skipped => simp only [lexeme, Lexeme.clip, Skipped.clip, Span.between, if_pos hstart]
      rw [placed, Lexeme.fromByte_cons_of_lt, hsame, ih (by omega) hmore (by omega)]
      rw [stop_lexeme _ (by omega)]
      omega

/-- A skipped piece that is divided has its second part from the division on. -/
theorem clip_lexeme_append {run more : List Char} (hrun : run ≠ [])
    (hshort : start < UInt32.size) (stop : Nat) :
    ((skipped (run ++ more)).lexeme (.between file start stop)).clip
        (start + Text.byteLength run) =
      (skipped more).lexeme (.between file (start + Text.byteLength run) stop) := by
  have hpos := Text.byteLength_pos hrun
  have hsplit : Text.splitBytes? (Text.byteLength run) (run ++ more) = some (run, more) :=
    Text.splitBytes?_eq_some_iff.mpr ⟨rfl, rfl⟩
  have hstart : (UInt32.ofNat start).toNat = start := UInt32.toNat_ofNat_of_lt' hshort
  simp only [lexeme, Lexeme.clip, Skipped.clip, Span.between, hstart, String.toList_ofList,
    Nat.add_sub_cancel_left, hsplit]
  rw [if_neg (by omega)]

/-- A skipped piece of two parts, in its place. -/
theorem placed_skipped_append (run more : List Char) (after : List Segment) :
    placed file start (skipped (run ++ more) :: after) =
      (skipped (run ++ more)).lexeme
          (.between file start (start + Text.byteLength run + Text.byteLength more)) ::
        placed file (start + Text.byteLength run + Text.byteLength more) after := by
  rw [placed, Segment.text, Text.byteLength_append, Nat.add_assoc]

/-- The pieces behind the division, in their places, are those of the whole from there on. -/
theorem Divides.fromByte_placed {cs : List Char} (h : Divides whole left right)
    (hwhole : Segmentation cs whole) (hshort : start + Text.byteLength cs < UInt32.size)
    (file : String) :
    Lexeme.fromByte (start + Text.byteLength (textOfAll left)) (placed file start whole) =
      placed file (start + Text.byteLength (textOfAll left)) right := by
  have hne := (h.segmentation_right hwhole).text_ne_nil
  rw [← hwhole.text_eq] at hshort
  cases h with
  | between =>
      rw [textOfAll_append, Text.byteLength_append] at hshort
      rw [placed_append, Lexeme.fromByte_append, fromByte_placed_of_le (Nat.le_refl _) (by omega),
        fromByte_placed_of_ge (Nat.le_refl _) hne (by omega), List.nil_append]
  | @inside run more before after hrun hmore =>
      obtain ⟨_, hafter⟩ := List.forall_mem_cons.mp hne
      have hpos := Text.byteLength_pos hmore
      simp only [textOfAll_append, textOfAll_cons, textOfAll_nil, Segment.text,
        Text.byteLength_append, List.append_nil, ← Nat.add_assoc] at hshort ⊢
      rw [placed_append, placed_skipped_append, Lexeme.fromByte_append,
        fromByte_placed_of_le (by omega) (by omega), List.nil_append, Lexeme.fromByte_cons_of_lt,
        clip_lexeme_append hrun (by omega), fromByte_placed_of_ge (by omega) hafter (by omega)]
      · rfl
      · rw [stop_lexeme _ (by omega)]
        omega

/-- The pieces of both parts, in their places and put together, are those of the whole. -/
theorem Divides.join_placed {cs : List Char} (h : Divides whole left right)
    (hwhole : Segmentation cs whole) :
    Lexeme.join (placed file start left)
        (placed file (start + Text.byteLength (textOfAll left)) right) =
      placed file start whole := by
  cases h with
  | between =>
      rw [placed_append]
      apply Lexeme.join_of_not_skipped
      intro s r hlast hhead
      -- no piece is skipped in front of a skipped one
      obtain ⟨before, hleft⟩ := List.getLast?_eq_some_iff.mp hlast
      obtain ⟨after, hright⟩ := List.head?_eq_some_iff.mp hhead
      have hbefore := congrArg (List.map Lexeme.segment) hleft
      have hafter := congrArg (List.map Lexeme.segment) hright
      rw [map_segment_placed, List.map_append] at hbefore
      rw [map_segment_placed] at hafter
      obtain ⟨_, halone, _⟩ := hwhole.fits (before.map Lexeme.segment) (skipped s.text.toList) right
        (by rw [hbefore]; simp [Lexeme.segment])
      exact halone r.text.toList (by rw [hafter]; rfl)
  | @inside run more before after hrun hmore =>
      have hlast : placed file start (before ++ [skipped run]) = placed file start before ++
          [.skipped ⟨String.ofList run, .between file (start + Text.byteLength (textOfAll before))
            (start + Text.byteLength (textOfAll before) + Text.byteLength run)⟩] := by
        rw [placed_append]
        rfl
      have hfirst (start : Nat) : placed file start (skipped more :: after) =
          .skipped ⟨String.ofList more, .between file start (start + Text.byteLength more)⟩ ::
            placed file (start + Text.byteLength more) after := rfl
      rw [hlast, hfirst, Lexeme.join_skipped, placed_append, placed_skipped_append]
      simp [lexeme, Span.between, Segment.text, Nat.add_assoc]

end Places

end Segment

/-! Sources divided at a byte. -/

section Sources

variable {source : String} {file : Option String}

/-- Lexemes of a source do not overlap. -/
theorem eq_of_overlap {lexeme other : Lexeme} (hshort : source.utf8ByteSize < UInt32.size)
    (h : lexeme ∈ scan source file) (hother : other ∈ scan source file)
    (hbefore : lexeme.span.start.offset.toNat < other.span.stop.offset.toNat)
    (hafter : other.span.start.offset.toNat < lexeme.span.stop.offset.toNat) : lexeme = other := by
  have happart {before mid after : List Lexeme} {first second : Lexeme}
      (hscan : scan source file = before ++ first :: (mid ++ second :: after)) :
      first.span.stop.offset.toNat ≤ second.span.start.offset.toNat := by
    have hsecond : scan source file = (before ++ first :: mid) ++ second :: after := by
      simpa using hscan
    rw [(offsets_of_scan hshort hscan).2, (offsets_of_scan hshort hsecond).1,
      Lexeme.bytesOfAll_append, Lexeme.bytesOfAll_cons]
    omega
  obtain ⟨before, after, hscan⟩ := List.append_of_mem h
  rw [hscan, List.mem_append, List.mem_cons] at hother
  rcases hother with hfront | rfl | hbehind
  · obtain ⟨front, mid, rfl⟩ := List.append_of_mem hfront
    have hle := happart (by simpa using hscan)
    omega
  · rfl
  · obtain ⟨mid, back, rfl⟩ := List.append_of_mem hbehind
    have hle := happart hscan
    omega

/-- A byte of a source that lies between characters and not inside a token, with the text in
front of it and the text behind. -/
structure IsBoundary (source : String) (file : Option String) (k : Nat)
    (front back : List Char) : Prop where
  split : Text.splitBytes? k source.toList = some (front, back)
  outside : ∀ t, Lexeme.token t ∈ scan source file →
    ¬ (t.span.start.offset.toNat < k ∧ k < t.span.stop.offset.toNat)

namespace IsBoundary

variable {k : Nat} {front back : List Char}

theorem source_eq (h : IsBoundary source file k front back) : source.toList = front ++ back :=
  (Text.splitBytes?_eq_some_iff.mp h.split).1

theorem byteLength_front (h : IsBoundary source file k front back) : Text.byteLength front = k :=
  (Text.splitBytes?_eq_some_iff.mp h.split).2

/-- The pieces of a source are divided at a boundary. -/
theorem exists_divides (h : IsBoundary source file k front back)
    (hshort : source.utf8ByteSize < UInt32.size) :
    ∃ left right, Divides (cut source.toList) left right ∧ textOfAll left = front ∧
      textOfAll right = back := by
  have hpieces := segmentation_cut source.toList
  apply Segment.exists_divides (hpieces.text_eq.trans h.source_eq)
  intro before kind text more after hwhole hfront
  by_contra hinside
  obtain ⟨htext, hmore⟩ := not_or.mp hinside
  -- such a token is in the scan, and the byte is inside it
  have hscan := scan_eq_placed hpieces file
  rw [hwhole, placed_append, placed, Nat.zero_add] at hscan
  have hbytes : Text.byteLength (textOfAll before) + (Text.byteLength text +
      (Text.byteLength more + Text.byteLength (textOfAll after))) < UInt32.size := by
    rw [← Text.byteLength_toList, ← hpieces.text_eq, hwhole] at hshort
    simpa [Segment.text] using hshort
  have hk := h.byteLength_front
  have htextPos := Text.byteLength_pos htext
  have hmorePos := Text.byteLength_pos hmore
  rw [hfront, Text.byteLength_append] at hk
  refine h.outside ⟨kind, String.ofList (text ++ more), _⟩ (hscan ▸ List.mem_append_right _
    List.mem_cons_self) ⟨?_, ?_⟩
  · simp only [Span.between]
    rw [UInt32.toNat_ofNat_of_lt' (by omega)]
    omega
  · simp only [Span.between, Segment.text, Text.byteLength_append]
    rw [UInt32.toNat_ofNat_of_lt' (by omega)]
    omega

/-- The pieces behind a boundary are those of the text there, and those of the lexemes of the
source from there on. -/
theorem exists_placed (h : IsBoundary source file k front back)
    (hshort : source.utf8ByteSize < UInt32.size) :
    ∃ right, scan (String.ofList back) file = placed (file.getD defaultFile) 0 right ∧
      Lexeme.fromByte k (scan source file) = placed (file.getD defaultFile) k right ∧
      k + Text.byteLength (textOfAll right) < UInt32.size := by
  have hpieces := segmentation_cut source.toList
  obtain ⟨left, right, hdivides, hleft, hright⟩ := h.exists_divides hshort
  have hrest : Segmentation (String.ofList back).toList right := by
    rw [String.toList_ofList, ← hright]
    exact hdivides.segmentation_right hpieces
  rw [← Text.byteLength_toList] at hshort
  refine ⟨right, scan_eq_placed hrest file, ?_, ?_⟩
  · rw [scan_eq_placed hpieces file, ← h.byteLength_front, ← hleft]
    have hsize : 0 + Text.byteLength source.toList < UInt32.size := by omega
    have hfrom := hdivides.fromByte_placed hpieces hsize (file.getD defaultFile)
    rwa [Nat.zero_add] at hfrom
  · rwa [hright, ← h.byteLength_front, ← Text.byteLength_append, ← h.source_eq]

/-- Two parts that meet at a boundary where no word goes on scan to lexemes that, put
together, are those of the whole. -/
theorem scan_eq_join (h : IsBoundary source file k front back)
    (hshort : source.utf8ByteSize < UInt32.size) (hcut : CleanCut front back) :
    scan source file = Lexeme.join (scan (String.ofList front) file)
      ((scan (String.ofList back) file).map (Lexeme.relocate (.forward k))) := by
  have hpieces := segmentation_cut source.toList
  obtain ⟨left, right, hdivides, hleft, hright⟩ := h.exists_divides hshort
  have hfront : Segmentation (String.ofList front).toList left := by
    rw [← hleft, ← hright] at hcut
    rw [String.toList_ofList, ← hleft]
    exact hdivides.segmentation_left hpieces hcut
  have hback : Segmentation (String.ofList back).toList right := by
    rw [String.toList_ofList, ← hright]
    exact hdivides.segmentation_right hpieces
  have hmove (n : Nat) : Position.forward k ⟨UInt32.ofNat (0 + n), file.getD defaultFile⟩ =
      ⟨UInt32.ofNat (k + n), file.getD defaultFile⟩ := by
    rw [Position.forward, Nat.zero_add, Nat.add_comm k, UInt32.ofNat_add]
  rw [scan_eq_placed hpieces, scan_eq_placed hfront, scan_eq_placed hback, placed_relocate hmove,
    ← hdivides.join_placed hpieces, hleft, h.byteLength_front, Nat.zero_add]

end IsBoundary

theorem le_start_of_mem_placed {file : String} {start : Nat} {segments : List Segment}
    (hshort : start + Text.byteLength (textOfAll segments) < UInt32.size) {lexeme : Lexeme}
    (h : lexeme ∈ placed file start segments) :
    start ≤ lexeme.span.start.offset.toNat ∧ start ≤ lexeme.span.stop.offset.toNat := by
  induction segments generalizing start with
  | nil => cases h
  | cons segment segments ih =>
      rw [textOfAll_cons, Text.byteLength_append] at hshort
      rcases List.mem_cons.mp h with rfl | h
      · rw [lexeme_span]
        simp only [Span.between]
        rw [UInt32.toNat_ofNat_of_lt' (by omega), UInt32.toNat_ofNat_of_lt' (by omega)]
        omega
      · have hmore := ih (by omega) h
        omega

end Sources

/-- Scanning restarts at any boundary. What is behind it scans to the lexemes of the source
from there on, with a skipped run that the boundary divides cut to its second part, and with
positions counted from the boundary. So it makes no difference what is in front of it. -/
theorem scan_restarts (source : String) (file : Option String) (k : Nat) (front back : List Char)
    (hshort : source.utf8ByteSize < UInt32.size) (h : IsBoundary source file k front back) :
    scan (String.ofList back) file =
        (Lexeme.fromByte k (scan source file)).map (Lexeme.relocate (.back (.ofNat k))) ∧
      (∀ lexeme ∈ Lexeme.fromByte k (scan source file),
        k ≤ lexeme.span.start.offset.toNat ∧ k ≤ lexeme.span.stop.offset.toNat) ∧
      ∀ (other : String) (k' : Nat) (front' : List Char), other.utf8ByteSize < UInt32.size →
        IsBoundary other file k' front' back →
        (Lexeme.fromByte k' (scan other file)).map (Lexeme.relocate (.back (.ofNat k'))) =
          (Lexeme.fromByte k (scan source file)).map (Lexeme.relocate (.back (.ofNat k))) := by
  have hback {source : String} {k : Nat} {front : List Char}
      (hshort : source.utf8ByteSize < UInt32.size) (h : IsBoundary source file k front back) :
      scan (String.ofList back) file =
        (Lexeme.fromByte k (scan source file)).map (Lexeme.relocate (.back (.ofNat k))) := by
    obtain ⟨right, hscan, hfrom, _⟩ := h.exists_placed hshort
    rw [hscan, hfrom, placed_relocate]
    intro n
    rw [Nat.zero_add]
    exact Position.back_ofNat k n _
  refine ⟨hback hshort h, ?_, ?_⟩
  · obtain ⟨right, _, hfrom, hsize⟩ := h.exists_placed hshort
    rw [hfrom]
    exact fun lexeme hmem => le_start_of_mem_placed hsize hmem
  · intro other k' front' hshort' h'
    rw [← hback hshort h, ← hback hshort' h']

/-- The boundary is inside a skipped run, and there inside a word that is no name: it goes on
with a capital. -/
theorem scan_restarts_capital :
    let source := "é abC d"
    source.utf8ByteSize < UInt32.size ∧
      IsBoundary source none 4 ['é', ' ', 'a'] ['b', 'C', ' ', 'd'] ∧
      scan source none = [.skipped ⟨"é abC ", .between "shell" 0 7⟩,
        .token ⟨.identifier, "d", .between "shell" 7 8⟩] ∧
      Lexeme.fromByte 4 (scan source none) = [.skipped ⟨"bC ", .between "shell" 4 7⟩,
        .token ⟨.identifier, "d", .between "shell" 7 8⟩] ∧
      scan "bC d" none =
        (Lexeme.fromByte 4 (scan source none)).map (Lexeme.relocate (.back 4)) := by
  intro source
  have hshort : source.utf8ByteSize < UInt32.size := by decide
  have hscan : scan source none = [.skipped ⟨"é abC ", .between "shell" 0 7⟩,
      .token ⟨.identifier, "d", .between "shell" 7 8⟩] := by decide +kernel
  have hboundary : IsBoundary source none 4 ['é', ' ', 'a'] ['b', 'C', ' ', 'd'] := by
    refine ⟨by decide +kernel, ?_⟩
    intro t ht
    rw [hscan] at ht
    obtain rfl : t = ⟨.identifier, "d", .between "shell" 7 8⟩ := by simpa using ht
    decide
  have hfrom : Lexeme.fromByte 4 (scan source none) = [.skipped ⟨"bC ", .between "shell" 4 7⟩,
      .token ⟨.identifier, "d", .between "shell" 7 8⟩] := by
    rw [hscan]
    decide +kernel
  exact ⟨hshort, hboundary, hscan, hfrom,
    (scan_restarts source none 4 _ _ hshort hboundary).1⟩

/-- Scanning goes by parts at blanks. Where the first part ends with a blank that is skipped
in the whole, the lexemes of the whole are those of the first part and those of the second,
moved behind it, with the skipped runs at the seam made one. -/
theorem scan_append_of_blank (front back : String) (file : Option String) (c : Char)
    (skipped : Skipped) (hshort : (front ++ back).utf8ByteSize < UInt32.size)
    (hlast : front.toList.getLast? = some c) (hblank : IsBlank c)
    (hskipped : .skipped skipped ∈ scan (front ++ back) file)
    (hin : skipped.span.start.offset.toNat < front.utf8ByteSize ∧
      front.utf8ByteSize ≤ skipped.span.stop.offset.toNat) :
    scan (front ++ back) file = Lexeme.join (scan front file)
        ((scan back file).map (Lexeme.relocate (.forward front.utf8ByteSize))) ∧
      ∀ lexeme ∈ scan back file,
        lexeme.span.start.offset.toNat + front.utf8ByteSize < UInt32.size ∧
        lexeme.span.stop.offset.toNat + front.utf8ByteSize < UInt32.size := by
  have hboundary : IsBoundary (front ++ back) file front.utf8ByteSize front.toList back.toList := by
    refine ⟨?_, ?_⟩
    · rw [Text.splitBytes?_eq_some_iff, String.toList_append, Text.byteLength_toList]
      exact ⟨rfl, rfl⟩
    · rintro t ht ⟨hstart, hstop⟩
      have hsame := eq_of_overlap hshort hskipped ht (by simp only [Lexeme.span]; omega)
        (by simp only [Lexeme.span]; omega)
      cases hsame
  have hcut : CleanCut front.toList back.toList := by
    intro d hd hword
    rw [hlast] at hd
    cases hd
    exact absurd (isWordChar_iff.mp hword) hblank.not_wordChar
  refine ⟨by simpa using hboundary.scan_eq_join hshort hcut, ?_⟩
  intro lexeme hmem
  obtain ⟨before, after, hscan⟩ := List.append_of_mem hmem
  have hall := bytesOfAll_scan back file
  rw [String.utf8ByteSize_append] at hshort
  rw [hscan, Lexeme.bytesOfAll_append, Lexeme.bytesOfAll_cons] at hall
  obtain ⟨hstart, hstop⟩ := offsets_of_scan (by omega) hscan
  omega

/-- A skipped run behind a comment, divided between a tab and a space. -/
theorem scan_append_of_blank_comment :
    let front := "-- é\n\t"
    let back := " f"
    (front ++ back).utf8ByteSize < UInt32.size ∧ front.toList.getLast? = some '\t' ∧
      IsBlank '\t' ∧
      scan (front ++ back) none = [.token ⟨.comment, "-- é", .between "shell" 0 5⟩,
        .skipped ⟨"\n\t ", .between "shell" 5 8⟩,
        .token ⟨.identifier, "f", .between "shell" 8 9⟩] ∧
      front.utf8ByteSize = 7 ∧
      scan (front ++ back) none = Lexeme.join (scan front none)
        ((scan back none).map (Lexeme.relocate (.forward front.utf8ByteSize))) := by
  intro front back
  have hshort : (front ++ back).utf8ByteSize < UInt32.size := by decide +kernel
  have hlast : front.toList.getLast? = some '\t' := by decide +kernel
  have hblank : IsBlank '\t' := .inr (.inl rfl)
  have hscan : scan (front ++ back) none = [.token ⟨.comment, "-- é", .between "shell" 0 5⟩,
      .skipped ⟨"\n\t ", .between "shell" 5 8⟩,
      .token ⟨.identifier, "f", .between "shell" 8 9⟩] := by decide +kernel
  have hsize : front.utf8ByteSize = 7 := by decide +kernel
  have hskipped : .skipped ⟨"\n\t ", .between "shell" 5 8⟩ ∈ scan (front ++ back) none := by
    rw [hscan]
    simp
  refine ⟨hshort, hlast, hblank, hscan, hsize, ?_⟩
  exact (scan_append_of_blank front back none '\t' _ hshort hlast hblank hskipped
    (by rw [hsize]; decide)).1

end ScriptSyntax
