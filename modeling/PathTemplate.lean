import PathTemplate.Command.Run
import PathTemplate.Describe
import PathTemplate.Rendering.Typed
import PathTemplate.Main
import PathTemplate.Proofs.Search.Fresh
import PathTemplate.Proofs.Search.Sweep
import PathTemplate.Proofs.Search.Explore
import PathTemplate.Proofs.Search.FirstMatch
import PathTemplate.Proofs.Search.Transport
import PathTemplate.Proofs.Reading.Reads
import PathTemplate.Proofs.Reading.Fragment
import PathTemplate.Proofs.Reading.Grouping
import PathTemplate.Proofs.Reading.Dialects
import PathTemplate.Proofs.Reading.Bodies
import PathTemplate.Proofs.Reading.TokenItems
import PathTemplate.Proofs.Reading.Accepted
import PathTemplate.Proofs.Reading.Lists
import PathTemplate.Proofs.Meaning.CaseVariants
import PathTemplate.Proofs.Meaning.Languages
import PathTemplate.Proofs.Meaning.Captures
import PathTemplate.Proofs.Meaning.Values
import PathTemplate.Proofs.Meaning.PlainPatterns
import PathTemplate.Proofs.Meaning.Tokens
import PathTemplate.Proofs.Meaning.Ending
import PathTemplate.Proofs.Meaning.Paths
import PathTemplate.Proofs.Meaning.Composed
import PathTemplate.Proofs.Meaning.Alternatives
import PathTemplate.Proofs.Meaning.Winner
import PathTemplate.Proofs.Meaning.Spelling
import PathTemplate.Proofs.Rendering.Validators
import PathTemplate.Proofs.Rendering.Rendered
import PathTemplate.Proofs.Rendering.Matched
import PathTemplate.Proofs.Meaning.Unique
import PathTemplate.Proofs.Rendering.Recovered
import PathTemplate.Proofs.Rendering.Agreement
import PathTemplate.Proofs.Rendering.Captured
import PathTemplate.Proofs.Reading.Readers
import PathTemplate.Proofs.Reading.Patterns
import PathTemplate.Proofs.Reading.Brackets
import PathTemplate.Proofs.Reading.Cutting
import PathTemplate.Proofs.Groups.Marks
import PathTemplate.Proofs.Groups.Scanning
import PathTemplate.Proofs.Groups.Builders
import PathTemplate.Proofs.Groups.Aligned
import PathTemplate.Proofs.Groups.Calm
import PathTemplate.Proofs.Groups.Guarded
import PathTemplate.Proofs.Groups.Contained
import PathTemplate.Proofs.Groups.Defaults
import PathTemplate.Proofs.Meaning.Lowering
import PathTemplate.Proofs.Templates.Accounting
import PathTemplate.Proofs.Meaning.CaseBlind
import PathTemplate.Proofs.Reading.Contents
import PathTemplate.Proofs.Meaning.Permissive
import PathTemplate.Proofs.Reading.Sequenced
import PathTemplate.Proofs.Meaning.Behind
import PathTemplate.Proofs.Meaning.Sequences
import PathTemplate.Proofs.Meaning.Suffixes
import PathTemplate.Proofs.Rendering.Skeleton
import PathTemplate.Proofs.Meaning.Segmented
import PathTemplate.Proofs.Meaning.Shortest
import PathTemplate.Proofs.Search.Effort
import PathTemplate.Proofs.Meaning.Weights
import PathTemplate.Proofs.Meaning.Mounting
import PathTemplate.Proofs.Search.Exhausted
import PathTemplate.Proofs.Meaning.Terminated
import PathTemplate.Proofs.Meaning.Preferred
import PathTemplate.Proofs.Templates.Passing
import PathTemplate.Proofs.Templates.Scanner
import PathTemplate.Proofs.Rendering.Verbatim
import PathTemplate.Proofs.Templates.NormalForm
import PathTemplate.Proofs.Templates.Scanned
import PathTemplate.Proofs.Rendering.Decoded
import PathTemplate.Proofs.Rendering.Contributions
import PathTemplate.Proofs.Rendering.Segments
import PathTemplate.Proofs.Templates.Reread
import PathTemplate.Proofs.Templates.QuotedBodies
import PathTemplate.Proofs.Meaning.PlainLexemes
import PathTemplate.Proofs.Meaning.ParameterSource
