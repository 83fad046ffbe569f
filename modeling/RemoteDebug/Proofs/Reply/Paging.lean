import RemoteDebug.Proofs.Reply.Encoding
import RemoteDebug.Proofs.Thread.Name
import RemoteDebug.Reply.Listing

/-!
# Pages of a listing

A page of a listing takes names from the front of it, at least one, and as many as fit (`page_cases`). So a listing goes
out in pages that are all full but the last, and that together have each name in its place (`Pages`).
-/

namespace RemoteDebug.Reply

variable {capacity : Nat} {names : List Ptid}

/-- `m` and names, separated by commas. -/
def listed (names : List Ptid) : List UInt8 := ascii "m" ++ (ascii ",").intercalate (names.map Ptid.render)

/-- A name behind its comma. -/
def entry (t : Ptid) : List UInt8 := ascii "," ++ t.render

theorem listed_cons (t : Ptid) (rest : List Ptid) :
    listed (t :: rest) = ascii "m" ++ t.render ++ rest.flatMap entry := by
  induction rest generalizing t with
  | nil => simp [listed]
  | cons u rest ih =>
    have others := List.append_cancel_left ((ih u).trans (List.append_assoc _ _ _))
    rw [List.map_cons] at others
    rw [listed, List.map_cons, List.map_cons, List.intercalate_cons_cons, others, List.flatMap_cons, entry]
    simp only [List.append_assoc]

/-! ## One page -/

/-- Names from the front of a listing fill a page: there is at least one, they fit, and the next would not. -/
structure Takes (capacity : Nat) (names taken left : List Ptid) : Prop where
  split : names = taken ++ left
  filled : taken ≠ []
  fits : (listed taken).length ≤ capacity
  full : ∀ t, left.head? = some t → capacity < (listed (taken ++ [t])).length

/-- Names are added up to the first that does not fit. -/
theorem addNames_eq (buf : Buffer) (fits : buf.bytes.length ≤ buf.capacity) (names : List Ptid) :
    ∃ taken left, names = taken ++ left ∧ addNames buf names = (buf.append (taken.flatMap entry), left) ∧
      (buf.append (taken.flatMap entry)).bytes.length ≤ buf.capacity ∧
      ∀ t, left.head? = some t → buf.capacity < (buf.append ((taken ++ [t]).flatMap entry)).bytes.length := by
  induction names generalizing buf with
  | nil => exact ⟨[], [], rfl, by simp [addNames, Buffer.append], by simpa using fits, nofun⟩
  | cons t names ih =>
    have written : encoding? [.text (ascii ","), .ptid t] = some (entry t) := by
      simp [encoding?, Piece.bytes?, entry]
    have goes (after : Buffer) := @Buffer.writeAll_eq_ok_iff buf [.text (ascii ","), .ptid t] after fits
    by_cases room : buf.bytes.length + (entry t).length ≤ buf.capacity
    · have added := (goes (buf.append (entry t))).2 ⟨entry t, written, room, rfl⟩
      obtain ⟨taken, left, split, rest, fits', full⟩ := ih (buf.append (entry t)) (by simpa using room)
      refine ⟨t :: taken, left, by rw [split, List.cons_append], ?_, ?_, fun u hu => ?_⟩
      · simp only [addNames, added, rest, Buffer.append_append, List.flatMap_cons]
      · simpa [Nat.add_assoc] using fits'
      · simpa [Nat.add_assoc] using full u hu
    · have stays : addNames buf (t :: names) = (buf, t :: names) := by
        unfold addNames
        split
        · rename_i after heq
          obtain ⟨bytes, hbytes, hfits, -⟩ := (goes after).1 heq
          rw [written, Option.some.injEq] at hbytes
          exact absurd (hbytes ▸ hfits) room
        · rfl
      refine ⟨[], t :: names, rfl, by simpa [Buffer.append] using stays, by simpa using fits, ?_⟩
      rintro u ⟨⟩
      simpa using Nat.lt_of_not_le room

/-- A page takes as many names as fit; there is no page if not even the first of them does. -/
theorem page_cases (capacity : Nat) {names : List Ptid} (filled : names ≠ []) :
    (page capacity names = (none, names) ∧ ∀ t, names.head? = some t → capacity < (listed [t]).length) ∨
      ∃ taken left, Takes capacity names taken left ∧ page capacity names = (some (listed taken), left) := by
  obtain ⟨t, rest, rfl⟩ := List.exists_cons_of_ne_nil filled
  have single : listed [t] = ascii "m" ++ t.render := by rw [listed_cons, List.flatMap_nil, List.append_nil]
  have written : encoding? [.text (ascii "m"), .ptid t] = some (listed [t]) := by
    simp [encoding?, Piece.bytes?, single]
  have goes (after : Buffer) :=
    @Buffer.writeAll_eq_ok_iff (Buffer.empty capacity) [.text (ascii "m"), .ptid t] after (by simp [Buffer.empty])
  by_cases begun : (listed [t]).length ≤ capacity
  · right
    have first := (goes ⟨capacity, listed [t]⟩).2 ⟨_, written, by simpa [Buffer.empty] using begun, rfl⟩
    obtain ⟨taken, left, rfl, added, fits, full⟩ := addNames_eq ⟨capacity, listed [t]⟩ begun rest
    refine ⟨t :: taken, left, ⟨rfl, List.cons_ne_nil _ _, ?_, fun u hu => ?_⟩, ?_⟩
    · rw [listed_cons, ← single]
      exact fits
    · rw [List.cons_append, listed_cons, ← single]
      exact full u hu
    · rw [listed_cons, ← single]
      simp only [page, first, added]
      rfl
  · left
    refine ⟨?_, ?_⟩
    · simp only [page]
      split
      · rfl
      · rename_i after heq
        obtain ⟨bytes, hbytes, hfits, -⟩ := (goes after).1 heq
        rw [written, Option.some.injEq] at hbytes
        rw [← hbytes, Buffer.empty, List.length_nil, Nat.zero_add] at hfits
        exact absurd hfits begun
    · rintro u ⟨⟩
      exact Nat.lt_of_not_le begun

/-- One name always fits. -/
theorem page_takes (filled : names ≠ []) (valid : ∀ t ∈ names, t.Valid) (room : 35 ≤ capacity) :
    ∃ taken left, Takes capacity names taken left ∧ page capacity names = (some (listed taken), left) := by
  rcases page_cases capacity filled with ⟨-, large⟩ | takes
  · obtain ⟨t, rest, rfl⟩ := List.exists_cons_of_ne_nil filled
    have length := Ptid.length_render_le (valid t List.mem_cons_self)
    have one : (ascii "m").length = 1 := by decide
    have beyond := large t rfl
    rw [listed_cons, List.flatMap_nil, List.append_nil, List.length_append, one] at beyond
    omega
  · exact takes

theorem page_nil (room : 1 ≤ capacity) : page capacity [] = (some (ascii "l"), []) := by
  have fits : render capacity [.text (ascii "l")] = some (ascii "l") := render_text room
  simp [page, fits]

/-- The names that are left are among those given. -/
theorem mem_of_mem_page {t : Ptid} (h : t ∈ (page capacity names).2) : t ∈ names := by
  by_cases filled : names = []
  · rw [filled] at h
    cases h
  · rcases page_cases capacity filled with ⟨same, -⟩ | ⟨taken, left, takes, same⟩
    · rwa [same] at h
    · rw [same] at h
      exact takes.split ▸ List.mem_append_right _ h

/-! ## All pages -/

/-- The pages that a listing goes out in. -/
inductive Pages (capacity : Nat) : List Ptid → List (List Ptid) → Prop
  | done : Pages capacity [] []
  | next {names taken left : List Ptid} {pages : List (List Ptid)} (takes : Takes capacity names taken left)
      (page_eq : page capacity names = (some (listed taken), left)) (rest : Pages capacity left pages) :
      Pages capacity names (taken :: pages)

theorem exists_pages (valid : ∀ t ∈ names, t.Valid) (room : 35 ≤ capacity) :
    ∃ pages, Pages capacity names pages := by
  induction h : names.length using Nat.strongRecOn generalizing names with
  | ind n ih =>
    subst h
    by_cases filled : names = []
    · exact ⟨[], filled ▸ .done⟩
    · obtain ⟨taken, left, takes, page_eq⟩ := page_takes filled valid room
      have shorter : left.length < names.length := by
        have some_taken := List.length_pos_iff.2 takes.filled
        rw [takes.split, List.length_append]
        omega
      have valid' : ∀ t ∈ left, t.Valid := fun t ht => valid t (takes.split ▸ List.mem_append_right _ ht)
      obtain ⟨pages, rest⟩ := ih _ shorter valid' rfl
      exact ⟨taken :: pages, .next takes page_eq rest⟩

namespace Pages

variable {pages : List (List Ptid)}

theorem flatten (h : Pages capacity names pages) : pages.flatten = names := by
  induction h with
  | done => rfl
  | next takes _ _ ih => rw [List.flatten_cons, ih, takes.split]

theorem of_mem (h : Pages capacity names pages) {page : List Ptid} (hp : page ∈ pages) :
    page ≠ [] ∧ (listed page).length ≤ capacity := by
  induction h with
  | done => cases hp
  | next takes _ _ ih =>
    rcases List.mem_cons.1 hp with rfl | hp
    · exact ⟨takes.filled, takes.fits⟩
    · exact ih hp

theorem length_le (h : Pages capacity names pages) : pages.length ≤ names.length := by
  induction h with
  | done => exact Nat.le_refl 0
  | next takes _ _ ih =>
    have some_taken := List.length_pos_iff.2 takes.filled
    rw [takes.split, List.length_append, List.length_cons]
    omega

/-- A page that another one follows has no room for the first name of that one. -/
theorem full (h : Pages capacity names pages) {j : Nat} {page later : List Ptid} {t : Ptid}
    (here : pages[j]? = some page)
    (behind : pages[j + 1]? = some later) (first : later.head? = some t) :
    capacity < (listed (page ++ [t])).length := by
  induction h generalizing j with
  | done => cases here
  | @next names taken left pages takes _ rest ih =>
    cases j with
    | zero =>
      obtain rfl : taken = page := Option.some.inj here
      refine takes.full t ?_
      cases rest with
      | done => cases behind
      | next takes' _ _ =>
        obtain rfl := Option.some.inj behind
        rw [takes'.split, List.head?_append, first, Option.some_or]
    | succ j => exact ih here behind

end Pages
end RemoteDebug.Reply
