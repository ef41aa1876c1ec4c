import DocNav.Loader.Batch
import DocNav.Main
import DocNav.Session
import DocNav.Proofs.Lookups
import DocNav.Proofs.Fetches
import DocNav.Proofs.Loads
import DocNav.Proofs.Failures
import DocNav.Proofs.Paths
import DocNav.Proofs.Unfolding
import DocNav.Proofs.Walks
import DocNav.Proofs.Turns
import DocNav.Proofs.Desk
import DocNav.Proofs.Hierarchy
import DocNav.Proofs.References
import DocNav.Proofs.Resolution
import DocNav.Proofs.Navigations
import DocNav.Proofs.Opening
import DocNav.Proofs.Staging
import DocNav.Proofs.Writes
import DocNav.Proofs.Materialization
import DocNav.Proofs.Fitting
import DocNav.Proofs.Resolved
import DocNav.Proofs.Addresses
import DocNav.Proofs.JsonTexts
import DocNav.Proofs.Literals
import DocNav.Proofs.Assignments
import DocNav.Proofs.Formats
import DocNav.Proofs.Growth
import DocNav.Proofs.Rounds
import DocNav.Proofs.Loops
import DocNav.Proofs.Frames
import DocNav.Proofs.Displays
import DocNav.Proofs.StateFiles
import DocNav.Proofs.FragmentFiles
import DocNav.Proofs.Toggling
import DocNav.Proofs.Benches
import DocNav.Proofs.Batches
import DocNav.Proofs.Sessions
import DocNav.Proofs.Listings
import DocNav.Proofs.JsonWriting
import DocNav.Proofs.RoundTrip
import DocNav.Proofs.Plans
import DocNav.Proofs.Records
import DocNav.Proofs.Checks
import DocNav.Proofs.Setbacks
import DocNav.Proofs.Levels
import DocNav.Proofs.Destinations
import DocNav.Proofs.Entries
import DocNav.Proofs.Expansion
import DocNav.Proofs.Filling
import DocNav.Proofs.Brackets
import DocNav.Proofs.Messages
import DocNav.Proofs.Confinement
import DocNav.Proofs.PathComponents
import DocNav.Proofs.Configurations
