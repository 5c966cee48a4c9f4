import ApiContract.Files.Tree
import ApiContract.Issue.RecordError
import ApiContract.Main
import ApiContract.Proofs.BrokenWalks
import ApiContract.Proofs.DecodedVariants
import ApiContract.Proofs.KeptEntries
import ApiContract.Proofs.RestoredPayload
import ApiContract.Proofs.DefinitionSearch
import ApiContract.Proofs.ParamsByName
import ApiContract.Proofs.CoercedPayload
import ApiContract.Proofs.CheckedReferences
import ApiContract.Proofs.ListedNames
import ApiContract.Proofs.NamespaceIsolation
import ApiContract.Proofs.LoadOrder
import ApiContract.Proofs.TrackedReferences
import ApiContract.Proofs.DerivedTypes
import ApiContract.Proofs.DerivedReferences
import ApiContract.Proofs.DerivedUnions
import ApiContract.Proofs.ContractDocuments
import ApiContract.Proofs.ResponseBodies
import ApiContract.Proofs.UsableSchemas
import ApiContract.Proofs.DiscriminatedSchemas
import ApiContract.Proofs.AbsentKeys
import ApiContract.Proofs.WrittenFiles
import ApiContract.Proofs.WrittenSchemas
import ApiContract.Proofs.MergedDocuments
import ApiContract.Proofs.NullAgreement
import ApiContract.Proofs.UnionAgreement
import ApiContract.Proofs.NamedEnumerations
import ApiContract.Proofs.ToleratedTags
import ApiContract.Proofs.PartialUpdates
import ApiContract.Proofs.PolymorphicIds
import ApiContract.Proofs.RegularNouns
import ApiContract.Proofs.TemporalTexts
import ApiContract.Proofs.WholeNumberTexts
import ApiContract.Proofs.RepeatedConversion
import ApiContract.Proofs.QueryExtraction
import ApiContract.Proofs.DecodedParams
import ApiContract.Proofs.EscapedTokens
import ApiContract.Proofs.SoundDefinitions
import ApiContract.Proofs.ScalarAgreement
import ApiContract.Proofs.DeclaredTypes
import ApiContract.Proofs.OutputPlaces
import ApiContract.Proofs.BlockComments
import ApiContract.Proofs.RegexLiterals
import ApiContract.Proofs.StringLiterals
import ApiContract.Proofs.FollowedNames
